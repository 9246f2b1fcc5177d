import Mathlib.Data.List.Perm.Subperm
import Fraisier.Data.Paths
import Fraisier.Db.Retention

/-!
# Pruning backups

`backup prune` applies the retention entries of a configuration one after the other, each to
the archives of its own directory. Entries may share a directory and select the same files.
`backupPrune_keeps` says what is left of each floor.
-/

namespace Fraisier.Cli

open Fraisier.Data Fraisier.Db

/-! ## The configuration -/

/-- A retention entry: a policy for the archives of a directory. -/
structure RetainEntry where
  dir : Option PathBuf
  schedule : Option String
  retentionDays : Option Nat
  keepMinimum : Option Nat
  keepLast : Option Nat
  pattern : Option String
  minFreeGb : Option Nat
  name : Option String
deriving DecidableEq

namespace RetainEntry

/-- The floor when none is declared. -/
def defaultKeepMinimum : Nat := 3

/-- The pattern when none is declared. -/
def defaultPattern : String := "*.pgdump"

def floor (entry : RetainEntry) : Nat :=
  entry.keepMinimum.getD defaultKeepMinimum

def glob (entry : RetainEntry) : String :=
  entry.pattern.getD defaultPattern

/-- The declared name, or the last component of the directory. -/
def named (entry : RetainEntry) : Option String :=
  entry.name.or (entry.dir.bind PathBuf.fileName)

/-- The directory; an entry without one is not valid. -/
def directory (entry : RetainEntry) : List String :=
  (entry.dir.map PathBuf.parts).getD []

end RetainEntry

/-- The `[backup]` section, and the problems of the other sections that a prune checks. -/
structure BackupConfig where
  dir : Option PathBuf
  retain : List RetainEntry
  others : List String

/-! ## Validation -/

/-- A letter or a digit. -/
def isAlphanumeric (c : Char) : Bool :=
  ('a' ≤ c && c ≤ 'z') || ('A' ≤ c && c ≤ 'Z') || ('0' ≤ c && c ≤ '9')

/-- A character that a unit file may carry. -/
def isPlain (c : Char) : Bool :=
  isAlphanumeric c || c == '/' || c == '.' || c == '_' || c == '-'

/-- Whether a path is made of plain characters and does not lead up. -/
def isPlainDir (path : PathBuf) : Bool :=
  path.parts.all fun part => part.toList.all isPlain && part != ".."

/-- Whether a word may be part of a unit's name. -/
def isUnitWord (word : String) : Bool :=
  !word.isEmpty && word.toList.head? != some '-' &&
    word.toList.all fun c => isAlphanumeric c || c == '_' || c == '.' || c == '-'

/-- The fields that are wrong, of a directory that has to be the backup directory or below
it. -/
def validateRetainDir (dir base : Option PathBuf) (place : String) : List String :=
  match dir with
  | none => [place ++ ".dir"]
  | some dir =>
      if !dir.absolute || !isPlainDir dir then [place ++ ".dir"]
      else if base.any fun base => base.absolute != dir.absolute ||
          !base.parts.isPrefixOf dir.parts then [place ++ ".dir"]
      else []

/-- The fields that are wrong, of a pattern that has to select archives only. -/
def validateRetainMatch (pattern place : String) : List String :=
  let plain := !pattern.isEmpty && pattern != "." && pattern != ".." &&
    pattern.toList.all fun c => isPlain c && c != '/' || c == '*' || c == '?'
  if !plain || !".pgdump".toList.isSuffixOf pattern.toList then [place ++ ".match"] else []

/-- The fields of an entry that are wrong. -/
def validateRetainEntry (calendar : String → Bool) (entry : RetainEntry) (base : Option PathBuf)
    (place : String) : List String :=
  validateRetainDir entry.dir base place ++
    (match entry.schedule with
      | none => [place ++ ".schedule"]
      | some spec => if calendar spec then [] else [place ++ ".schedule"]) ++
    (match entry.retentionDays with
      | none => [place ++ ".retention_days"]
      | some days => if days = 0 then [place ++ ".retention_days"] else []) ++
    (match entry.keepLast with
      | none => []
      | some keepLast =>
          if keepLast = 0 ∨ keepLast < entry.floor then [place ++ ".keep_last"] else []) ++
    validateRetainMatch entry.glob place ++
    (if entry.minFreeGb = some 0 then [place ++ ".min_free_gb"] else [])

/-- Validate entries after those that have some names. -/
def validateRetainFrom (calendar : String → Bool) (base : Option PathBuf) :
    Nat → List String → List RetainEntry → List String
  | _, _, [] => []
  | index, names, entry :: entries =>
      let place := s!"backup.retain[{index}]"
      validateRetainEntry calendar entry base place ++
        match entry.named with
        | none => (place ++ ".name") :: validateRetainFrom calendar base (index + 1) names entries
        | some name =>
            (if isUnitWord name then [] else [place ++ ".name"]) ++
              if name ∈ names then
                (place ++ ".name") :: validateRetainFrom calendar base (index + 1) names entries
              else validateRetainFrom calendar base (index + 1) (names ++ [name]) entries

/-- The fields that are wrong. -/
def BackupConfig.validateBackupOps (calendar : String → Bool) (config : BackupConfig) :
    List String :=
  config.others ++
    (if config.dir.all fun dir => dir.absolute && isPlainDir dir then [] else ["backup.dir"]) ++
    (if config.dir.isNone then ["backup.dir"] else []) ++
    validateRetainFrom calendar config.dir 0 [] config.retain

/-- The names of entries without a problem are distinct. -/
theorem nodup_of_validateRetainFrom {calendar : String → Bool} {base : Option PathBuf}
    {index : Nat} {names : List String} {entries : List RetainEntry}
    (h : validateRetainFrom calendar base index names entries = []) :
    (entries.map RetainEntry.named).Nodup ∧
      ∀ name ∈ names, some name ∉ entries.map RetainEntry.named := by
  induction entries generalizing index names with
  | nil => simp
  | cons entry entries ih =>
      rw [validateRetainFrom] at h
      simp only [List.append_eq_nil_iff] at h
      obtain ⟨-, h⟩ := h
      cases hname : entry.named with
      | none => simp [hname] at h
      | some name =>
          simp only [hname, List.append_eq_nil_iff] at h
          obtain ⟨-, h⟩ := h
          split at h
          · cases h
          next hfresh =>
            obtain ⟨hnodup, hnames⟩ := ih h
            rw [List.map_cons, hname]
            refine ⟨List.nodup_cons.mpr ⟨hnames name (by simp), hnodup⟩, ?_⟩
            intro name' hname'
            refine List.not_mem_cons_of_ne_of_not_mem ?_ (hnames name' (by simp [hname']))
            intro heq
            exact hfresh (Option.some.inj heq ▸ hname')

/-! ## Pruning -/

/-- What a prune meets: what `pg_restore --list` says of each archive, the time, the
directories that cannot be read, the files that cannot be removed, and whether a deploy holds
its lock. -/
structure PruneWorld where
  pgRestore : String
  tool : Key → Except String Outcome
  now : Int
  unreadable : List String → Option String
  stuck : Key → Option String
  locked : Bool

/-- One entry's prune: an error, or the plan, the links that lead outside and what could not
be removed. -/
structure EntryPrune where
  failed : Bool
  error : Option String
  plan : Plan
  outside : List Key
  left : List (Key × String)

/-- Why a prune removes nothing at all. -/
inductive Refusal where
  | invalid (fields : List String)
  | noPolicy
  | unknownEntry (wanted : String) (known : List String)
  | locked

/-- An entry's prune that removes nothing. -/
def EntryPrune.failure (error : String) : EntryPrune :=
  ⟨true, some error, .empty, [], []⟩

/-- The age rule of an entry, in nanoseconds. -/
def RetainEntry.retention (entry : RetainEntry) : Int :=
  (entry.retentionDays.getD 1 * 24 * 3600 * 1000000000 : Nat)

/-- Why a policy was rejected, as a text. -/
def policyErrorText : PolicyError → String
  | .keepLastZero => "keep_last must be at least 1: the newest archive is the restore point a " ++
      "failed migration rolls back to"
  | .keepLastBelowMinimum keepLast keepMinimum =>
      s!"keep_last = {keepLast} is below keep_minimum = {keepMinimum}: a corpus cannot hold at " ++
        s!"least {keepMinimum} and at most {keepLast} archives. Raise keep_last or lower " ++
        "keep_minimum"

/-- Plan one entry's prune, and carry it out where it applies. -/
def pruneEntry (world : PruneWorld) (apply : Bool) (d : Disk) (entry : RetainEntry) :
    Disk × EntryPrune :=
  match Policy.new (some entry.retention) entry.floor entry.keepLast with
  | .error error => (d, .failure (policyErrorText error))
  | .ok policy =>
      match d.corpus world.unreadable entry.directory entry.glob with
      | .error error => (d, .failure ("cannot read the directory: " ++ error))
      | .ok corpus =>
          let plan := plan corpus.candidates policy world.now (d.verify world.pgRestore world.tool)
          let (d, left) :=
            if apply then d.remove world.stuck entry.directory plan.remove else (d, [])
          (d, ⟨!left.isEmpty, none, plan, corpus.outside, left⟩)

/-- Prune entries one after the other. -/
def pruneEntries (world : PruneWorld) (apply : Bool) (d : Disk) :
    List RetainEntry → Disk × List EntryPrune
  | [] => (d, [])
  | entry :: entries =>
      let (d, pruned) := pruneEntry world apply d entry
      let (d, rest) := pruneEntries world apply d entries
      (d, pruned :: rest)

/-- The entries that a prune is for. -/
def BackupConfig.chosen (config : BackupConfig) : Option String → List RetainEntry
  | none => config.retain
  | some wanted => config.retain.filter fun entry => entry.named == some wanted

/-- Apply the retention entries, or the one with a name. -/
def backupPrune (world : PruneWorld) (calendar : String → Bool) (config : BackupConfig)
    (name : Option String) (apply : Bool) (d : Disk) : Disk × Except Refusal (List EntryPrune) :=
  let wrong := config.validateBackupOps calendar
  if !wrong.isEmpty then (d, .error (.invalid wrong))
  else if config.retain.isEmpty then (d, .error .noPolicy)
  else if (config.chosen name).isEmpty then
    (d, .error (.unknownEntry (name.getD "") (config.retain.filterMap RetainEntry.named)))
  else if world.locked then (d, .error .locked)
  else
    let (d, pruned) := pruneEntries world apply d (config.chosen name)
    (d, .ok pruned)

/-! ## What is left of a floor -/

/-- The archives that an entry selects. -/
def RetainEntry.archives (d : Disk) (entry : RetainEntry) : List Key :=
  match d.dirs entry.directory with
  | none => []
  | some root => d.archives root entry.glob

/-- Whether an archive of an entry is another entry's as well, or a link that leads to what an
entry selects. -/
def Exposed (d : Disk) (entries : List RetainEntry) (entry : RetainEntry) (key : Key) : Prop :=
  (∃ other ∈ entries, other ≠ entry ∧ key ∈ other.archives d) ∨
    ∃ passed ∈ (d.trail key).tail, ∃ other ∈ entries, passed ∈ other.archives d

instance (d : Disk) (entries : List RetainEntry) (entry : RetainEntry) (key : Key) :
    Decidable (Exposed d entries entry key) :=
  inferInstanceAs (Decidable (_ ∨ _))

/-- Whether `pg_restore` rejects an archive. -/
def PruneWorld.rejects (world : PruneWorld) (key : Key) : Bool :=
  (verdictOf world.pgRestore (world.tool key)).isInvalid

/-- Every entry is left at least its floor, or all the archives that it had. -/
def FloorsKept (config : BackupConfig) (d d' : Disk) : Prop :=
  ∀ entry ∈ config.retain,
    min entry.floor (entry.archives d).length ≤ (entry.archives d').length

section Counting

variable {α : Type} [DecidableEq α]

/-- Where what is lost of some items, and then of those that are kept, is exposed, as many are
left as are kept, but for the exposed ones. -/
theorem min_le_of_lost {before now kept after exposed : List α} {sound : α → Bool} {n : Nat}
    (hbefore : before.Nodup) (hkept : kept.Nodup) (hsubset : kept ⊆ now)
    (hfloor : min n (now.countP sound) ≤ kept.length)
    (hlost : ∀ a ∈ before, a ∉ now → a ∈ exposed) (hlost' : ∀ a ∈ kept, a ∉ after → a ∈ exposed) :
    min n (before.countP sound) ≤ after.length + exposed.length := by
  have hnow : before.countP sound ≤
      now.countP sound + (before.filter fun a => a ∉ now).length := by
    rw [List.countP_eq_length_filter, List.countP_eq_length_filter, ← List.length_append]
    refine (List.subperm_of_subset (hbefore.filter _) ?_).length_le
    intro a ha
    obtain ⟨hmem, hsound⟩ := List.mem_filter.mp ha
    by_cases hin : a ∈ now
    · exact List.mem_append_left _ (List.mem_filter.mpr ⟨hin, hsound⟩)
    · exact List.mem_append_right _ (List.mem_filter.mpr ⟨hmem, by simpa using hin⟩)
  have hafter : kept.length ≤ after.length + (kept.filter fun a => a ∉ after).length := by
    rw [← List.length_append]
    refine (List.subperm_of_subset hkept ?_).length_le
    intro a ha
    by_cases hin : a ∈ after
    · exact List.mem_append_left _ hin
    · exact List.mem_append_right _ (List.mem_filter.mpr ⟨ha, by simpa using hin⟩)
  have hexposed : (before.filter fun a => a ∉ now).length +
      (kept.filter fun a => a ∉ after).length ≤ exposed.length := by
    rw [← List.length_append]
    refine (List.subperm_of_subset ?_ ?_).length_le
    · refine List.nodup_append'.mpr ⟨hbefore.filter _, hkept.filter _, ?_⟩
      intro a ha ha'
      have hnot : a ∉ now := by simpa using (List.mem_filter.mp ha).2
      exact hnot (hsubset (List.mem_filter.mp ha').1)
    · intro a ha
      obtain ha | ha := List.mem_append.mp ha
      · obtain ⟨hmem, hnot⟩ := List.mem_filter.mp ha
        exact hlost a hmem (by simpa using hnot)
      · obtain ⟨hmem, hnot⟩ := List.mem_filter.mp ha
        exact hlost' a hmem (by simpa using hnot)
  omega

end Counting

section Prune

variable {world : PruneWorld} {apply : Bool} {d : Disk} {entry : RetainEntry}

theorem RetainEntry.nodup_archives (d : Disk) (entry : RetainEntry) : (entry.archives d).Nodup := by
  unfold archives
  split
  · exact List.nodup_nil
  · exact d.nodup_archives _ _

theorem RetainEntry.mem_archives_of_without {removed : List Key} {key : Key}
    (h : key ∈ entry.archives (d.without removed)) : key ∈ entry.archives d := by
  unfold archives at h ⊢
  rw [Disk.dirs_without] at h
  split
  next hnone => simp [hnone] at h
  next root hroot =>
    rw [hroot] at h
    exact Disk.mem_archives_of_without h

/-- An archive that an entry loses was taken away, or what it leads over was. -/
theorem RetainEntry.exists_removed {removed : List Key} {key : Key} (h : key ∈ entry.archives d)
    (hlost : key ∉ entry.archives (d.without removed)) :
    key ∈ removed ∨ ∃ passed ∈ (d.trail key).tail, passed ∈ removed := by
  unfold archives at h hlost
  rw [Disk.dirs_without] at hlost
  cases hroot : d.dirs entry.directory with
  | none => simp [hroot] at h
  | some root =>
      simp only [hroot] at h hlost
      by_contra hkept
      rw [not_or] at hkept
      refine hlost (Disk.mem_archives_without h ?_)
      intro passed hpassed hremoved
      rw [Disk.trail, Node.trail_eq_cons] at hpassed
      obtain rfl | hpassed := List.mem_cons.mp hpassed
      · exact hkept.1 hremoved
      · exact hkept.2 ⟨passed, hpassed, hremoved⟩

theorem RetainEntry.isFile_of_mem_archives (entry : RetainEntry) {key : Key}
    (h : key ∈ entry.archives d) : d.isFile key = true := by
  unfold archives at h
  split at h
  · cases h
  · exact Disk.isFile_of_mem_archives h

/-- What the prune of an entry does: it takes away archives of the entry, and keeps others, as
many as the floor asks for or all that are not rejected. -/
structure Pruned (world : PruneWorld) (d : Disk) (entry : RetainEntry) (removed kept : List Key) :
    Prop where
  removes : removed ⊆ entry.archives d
  keeps : kept ⊆ entry.archives d
  nodup : kept.Nodup
  disjoint : ∀ key ∈ kept, key ∉ removed
  floor : min entry.floor ((entry.archives d).countP fun key => !world.rejects key) ≤ kept.length

/-- A prune that removes nothing keeps everything. -/
theorem Pruned.nothing (world : PruneWorld) (d : Disk) (entry : RetainEntry) :
    Pruned world d entry [] (entry.archives d) :=
  ⟨List.nil_subset _, List.Subset.refl _, entry.nodup_archives d, by simp,
    (min_le_right _ _).trans List.countP_le_length⟩

theorem pruneEntry_prunes (world : PruneWorld) (apply : Bool) (d : Disk) (entry : RetainEntry) :
    ∃ removed kept, (pruneEntry world apply d entry).1 = d.without removed ∧
      Pruned world d entry removed kept := by
  have hnothing : ∃ removed kept, d = d.without removed ∧ Pruned world d entry removed kept :=
    ⟨[], _, (Disk.without_nil d).symm, .nothing world d entry⟩
  unfold pruneEntry
  cases hpolicy : Policy.new (some entry.retention) entry.floor entry.keepLast with
  | error error => exact hnothing
  | ok policy =>
      cases hcorpus : d.corpus world.unreadable entry.directory entry.glob with
      | error error => exact hnothing
      | ok corpus =>
          have hcandidates : corpus.candidates.map Candidate.path = entry.archives d := by
            unfold Disk.corpus at hcorpus
            unfold RetainEntry.archives
            cases hroot : d.dirs entry.directory with
            | none => simp [hroot] at hcorpus
            | some root =>
                simp only [hroot] at hcorpus
                split at hcorpus
                · cases hcorpus
                · rw [← Except.ok.inj hcorpus, List.map_map]
                  rfl
          have hplanned := plan_planned corpus.candidates policy world.now
            (d.verify world.pgRestore world.tool)
          rw [hcandidates] at hplanned
          set planned := plan corpus.candidates policy world.now
            (d.verify world.pgRestore world.tool) with hplan
          have hnodup : (planned.kept ++ planned.remove).Nodup :=
            hplanned.perm.nodup_iff.mpr (entry.nodup_archives d)
          have hkept : planned.kept ⊆ entry.archives d := fun key hkey =>
            hplanned.perm.mem_iff.mp (List.mem_append_left _ hkey)
          have hremove : planned.remove ⊆ entry.archives d := fun key hkey =>
            hplanned.perm.mem_iff.mp (List.mem_append_right _ hkey)
          have hfloor : min entry.floor
              ((entry.archives d).countP fun key => !world.rejects key) ≤ planned.kept.length := by
            rw [← Policy.keepMinimum_of_new hpolicy]
            refine le_trans (le_of_eq ?_) hplanned.floor
            congr 1
            refine List.countP_congr fun key hkey => ?_
            have hfile : d.isFile key = true := entry.isFile_of_mem_archives hkey
            rw [PruneWorld.rejects, Disk.verify, if_pos hfile]
          cases apply with
          | false =>
              refine ⟨[], planned.kept, (Disk.without_nil d).symm, List.nil_subset _, hkept, ?_, ?_,
                hfloor⟩
              · exact (List.nodup_append'.mp hnodup).1
              · simp
          | true =>
              obtain ⟨removed, hsubset, heq⟩ :=
                d.exists_remove world.stuck entry.directory planned.remove
              refine ⟨removed, planned.kept, heq, fun key hkey => hremove (hsubset hkey), hkept,
                (List.nodup_append'.mp hnodup).1, ?_, hfloor⟩
              intro key hkey hremoved
              exact (List.nodup_append'.mp hnodup).2.2 hkey (hsubset hremoved)

theorem pruneEntries_cons (world : PruneWorld) (apply : Bool) (d : Disk) (entry : RetainEntry)
    (entries : List RetainEntry) :
    (pruneEntries world apply d (entry :: entries)).1 =
      (pruneEntries world apply (pruneEntry world apply d entry).1 entries).1 := rfl

/-- A prune of entries takes away what they select. -/
theorem exists_pruneEntries (world : PruneWorld) (apply : Bool) (d : Disk)
    (entries : List RetainEntry) :
    ∃ removed, (pruneEntries world apply d entries).1 = d.without removed ∧
      ∀ key ∈ removed, ∃ entry ∈ entries, key ∈ entry.archives d := by
  induction entries generalizing d with
  | nil => exact ⟨[], (Disk.without_nil d).symm, by simp⟩
  | cons entry entries ih =>
      obtain ⟨removed, kept, heq, hpruned⟩ := pruneEntry_prunes world apply d entry
      obtain ⟨removed', heq', hselected⟩ := ih (d.without removed)
      refine ⟨removed ++ removed', ?_, ?_⟩
      · rw [pruneEntries_cons, heq, heq', Disk.without_without]
      · intro key hkey
        obtain hkey | hkey := List.mem_append.mp hkey
        · exact ⟨entry, List.mem_cons_self, hpruned.removes hkey⟩
        · obtain ⟨other, hother, harchive⟩ := hselected key hkey
          exact ⟨other, List.mem_cons_of_mem _ hother,
            RetainEntry.mem_archives_of_without harchive⟩

theorem pruneEntries_append (world : PruneWorld) (apply : Bool) (d : Disk)
    (first rest : List RetainEntry) :
    (pruneEntries world apply d (first ++ rest)).1 =
      (pruneEntries world apply (pruneEntries world apply d first).1 rest).1 := by
  induction first generalizing d with
  | nil => rfl
  | cons entry first ih => rw [List.cons_append, pruneEntries_cons, pruneEntries_cons, ih]

/-- An entry is left its floor, or all that is not rejected, but for what was exposed and is
gone. -/
def FloorLeft (world : PruneWorld) (entries : List RetainEntry) (d d' : Disk)
    (entry : RetainEntry) : Prop :=
  min entry.floor ((entry.archives d).countP fun key => !world.rejects key) ≤
    (entry.archives d').length +
      ((entry.archives d).filter fun key =>
        Exposed d entries entry key ∧ key ∉ entry.archives d').length

/-- What an entry loses to others, or over a link, was exposed. -/
theorem exposed_of_lost {entries : List RetainEntry} {removed more : List Key} {key : Key}
    (hremoved : ∀ key ∈ removed, ∃ other ∈ entries, key ∈ other.archives d)
    (hothers : key ∈ removed → ∃ other ∈ entries, other ≠ entry ∧ key ∈ other.archives d)
    (h : key ∈ entry.archives d) (hlost : key ∉ entry.archives (d.without removed)) :
    key ∈ (entry.archives d).filter fun key => Exposed d entries entry key ∧
      key ∉ entry.archives (d.without (removed ++ more)) := by
  refine List.mem_filter.mpr ⟨h, decide_eq_true ⟨?_, fun hleft => hlost ?_⟩⟩
  swap
  · rw [← Disk.without_without] at hleft
    exact RetainEntry.mem_archives_of_without hleft
  -- an archive is lost with its own path, or with one that a link passes through
  obtain hkey | ⟨passed, hpassed, hkey⟩ := RetainEntry.exists_removed h hlost
  · exact .inl (hothers hkey)
  · exact .inr ⟨passed, hpassed, hremoved passed hkey⟩

/-- The prune of entries leaves the floor of one that is not among them. -/
theorem floorLeft_of_not_mem {entries chosen : List RetainEntry} (hchosen : chosen ⊆ entries)
    (hentry : entry ∉ chosen) :
    FloorLeft world entries d (pruneEntries world apply d chosen).1 entry := by
  obtain ⟨removed, heq, hselected⟩ := exists_pruneEntries world apply d chosen
  have hothers : ∀ key ∈ removed, ∃ other ∈ entries, other ≠ entry ∧ key ∈ other.archives d := by
    intro key hkey
    obtain ⟨other, hother, harchive⟩ := hselected key hkey
    exact ⟨other, hchosen hother, fun heq => hentry (heq ▸ hother), harchive⟩
  have hnothing := Pruned.nothing world d entry
  rw [heq]
  refine min_le_of_lost (entry.nodup_archives d) hnothing.nodup (List.Subset.refl _)
    hnothing.floor (fun key hkey hnot => absurd hkey hnot) ?_
  intro key hkey hlost
  have hexposed := @exposed_of_lost _ entry entries removed [] key (fun key hkey => by
    obtain ⟨other, hother, -, harchive⟩ := hothers key hkey
    exact ⟨other, hother, harchive⟩) (hothers key) hkey hlost
  rw [List.append_nil] at hexposed
  exact hexposed

/-- The prune of entries leaves the floor of one that is among them once. -/
theorem floorLeft_of_mem {entries first rest : List RetainEntry}
    (hchosen : first ++ entry :: rest ⊆ entries) (hfirst : entry ∉ first) (hrest : entry ∉ rest) :
    FloorLeft world entries d (pruneEntries world apply d (first ++ entry :: rest)).1 entry := by
  obtain ⟨before, hbefore, hselected⟩ := exists_pruneEntries world apply d first
  obtain ⟨removed, kept, hremoved, hpruned⟩ :=
    pruneEntry_prunes world apply (d.without before) entry
  obtain ⟨after, hafter, hselected'⟩ :=
    exists_pruneEntries world apply ((d.without before).without removed) rest
  have hfinal : (pruneEntries world apply d (first ++ entry :: rest)).1 =
      d.without (before ++ (removed ++ after)) := by
    rw [pruneEntries_append, hbefore, pruneEntries_cons, hremoved, hafter, Disk.without_without,
      Disk.without_without]
  have hearlier : ∀ key ∈ before, ∃ other ∈ entries, other ≠ entry ∧ key ∈ other.archives d := by
    intro key hkey
    obtain ⟨other, hother, harchive⟩ := hselected key hkey
    exact ⟨other, hchosen (List.mem_append_left _ hother), fun heq => hfirst (heq ▸ hother),
      harchive⟩
  have hlater : ∀ key ∈ after, ∃ other ∈ entries, other ≠ entry ∧ key ∈ other.archives d := by
    intro key hkey
    obtain ⟨other, hother, harchive⟩ := hselected' key hkey
    exact ⟨other, hchosen (List.mem_append_right _ (List.mem_cons_of_mem _ hother)),
      fun heq => hrest (heq ▸ hother),
      RetainEntry.mem_archives_of_without (RetainEntry.mem_archives_of_without harchive)⟩
  have hany : ∀ key ∈ before ++ (removed ++ after), ∃ other ∈ entries, key ∈ other.archives d := by
    intro key hkey
    obtain hkey | hkey := List.mem_append.mp hkey
    · obtain ⟨other, hother, -, harchive⟩ := hearlier key hkey
      exact ⟨other, hother, harchive⟩
    · obtain hkey | hkey := List.mem_append.mp hkey
      · exact ⟨entry, hchosen (by simp), RetainEntry.mem_archives_of_without (hpruned.removes hkey)⟩
      · obtain ⟨other, hother, -, harchive⟩ := hlater key hkey
        exact ⟨other, hother, harchive⟩
  rw [hfinal]
  refine min_le_of_lost (entry.nodup_archives d) hpruned.nodup hpruned.keeps hpruned.floor ?_ ?_
  · intro key hkey hlost
    refine exposed_of_lost (fun key hkey => ?_) (hearlier key) hkey hlost
    exact hany key (List.mem_append_left _ hkey)
  · intro key hkey hlost
    have hexposed := @exposed_of_lost _ entry entries _ [] key hany ?_
      (RetainEntry.mem_archives_of_without (hpruned.keeps hkey)) hlost
    · rw [List.append_nil] at hexposed
      exact hexposed
    intro hgone
    obtain hgone | hgone := List.mem_append.mp hgone
    · exact hearlier key hgone
    · obtain hgone | hgone := List.mem_append.mp hgone
      · exact absurd hgone (hpruned.disjoint key hkey)
      · exact hlater key hgone

/-- After a prune every entry still holds its floor, or all the archives it held that
`pg_restore` does not reject, but for those that are gone and that another entry selects as well,
or that are links to what an entry selects. -/
theorem backupPrune_keeps (world : PruneWorld) (calendar : String → Bool) (config : BackupConfig)
    (name : Option String) (apply : Bool) (d : Disk) :
    ∀ entry ∈ config.retain,
      min entry.floor ((entry.archives d).countP fun key => !world.rejects key) ≤
        (entry.archives (backupPrune world calendar config name apply d).1).length +
          ((entry.archives d).filter fun key => Exposed d config.retain entry key ∧
            key ∉ entry.archives (backupPrune world calendar config name apply d).1).length := by
  intro entry hentry
  have hsame : FloorLeft world config.retain d d entry :=
    (Pruned.nothing world d entry).floor.trans (Nat.le_add_right _ _)
  have hchosen : config.chosen name ⊆ config.retain := by
    cases name with
    | none => exact List.Subset.refl _
    | some wanted => exact List.filter_sublist.subset
  unfold backupPrune
  simp only
  split
  · exact hsame
  next hvalid =>
    repeat' (split; exact hsame)
    have hwrong : config.validateBackupOps calendar = [] := by simpa using hvalid
    have hnames : (config.retain.map RetainEntry.named).Nodup := by
      unfold BackupConfig.validateBackupOps at hwrong
      exact (nodup_of_validateRetainFrom (List.append_eq_nil_iff.mp hwrong).2).1
    have hnodup : (config.chosen name).Nodup := by
      have hretain := List.Nodup.of_map _ hnames
      cases name with
      | none => exact hretain
      | some wanted => exact hretain.filter _
    show FloorLeft world config.retain d
      (pruneEntries world apply d (config.chosen name)).1 entry
    by_cases hmem : entry ∈ config.chosen name
    · obtain ⟨first, rest, heq⟩ := List.append_of_mem hmem
      rw [heq] at hchosen hnodup ⊢
      have hfresh := List.nodup_middle.mp hnodup
      rw [List.nodup_cons, List.mem_append, not_or] at hfresh
      exact floorLeft_of_mem hchosen hfresh.1.1 hfresh.1.2
    · exact floorLeft_of_not_mem hchosen hmem

end Prune

/-! ## One directory -/

namespace OldArchives

/-- The entries of one directory, none of them modified in time. -/
def disk (entries : List (String × Node Key Int))
    (hnodup : ((entries.map fun e => (Key.mk ["srv"] e.1, e.2)).map Prod.fst).Nodup) : Disk where
  dirs dir := if dir = ["srv"] then some dir else none
  entries := entries.map fun e => (⟨["srv"], e.1⟩, e.2)
  nodup := hnodup

/-- An entry that keeps one old archive, at most so many in all. -/
def entry (name pattern : String) (keepLast : Option Nat) : RetainEntry where
  dir := some ⟨true, ["srv"]⟩
  schedule := some "daily 05:30"
  retentionDays := some 1
  keepMinimum := some 1
  keepLast := keepLast
  pattern := some pattern
  minFreeGb := none
  name := some name

/-- A configuration with some entries. -/
def config (retain : List RetainEntry) : BackupConfig :=
  ⟨some ⟨true, ["srv"]⟩, retain, []⟩

/-- A prune ten days after the epoch, where `pg_restore` rejects the archives of some names. -/
def world (rejected : List String) : PruneWorld where
  pgRestore := "pg_restore"
  tool key := .ok (if key.name ∈ rejected then ⟨some 1, "not a valid archive"⟩ else ⟨some 0, ""⟩)
  now := 10 * 24 * 3600 * 1000000000
  unreadable _ := none
  stuck _ := none
  locked := false

/-- Two old archives. -/
def two : Disk :=
  disk [("a.pgdump", .file 0), ("b.pgdump", .file 1)] (by decide)

/-- An old archive, and a link to it that is newer by its name. -/
def linked : Disk :=
  disk [("a.pgdump", .file 0),
    ("l-19700102T000000Z.pgdump", .link ⟨["srv"], "a.pgdump"⟩)] (by decide)

/-- Every schedule is one. -/
def calendar (_ : String) : Bool :=
  true

/-- The entry of every archive of the directory. -/
def all : RetainEntry :=
  entry "all" "*.pgdump" none

/-- The entry of those whose name begins with an `a`. -/
def beginningWithA : RetainEntry :=
  entry "some" "a*.pgdump" none

/-- What a prune leaves where `pg_restore` rejects the archives of some names. -/
def pruned (rejected : List String) (retain : List RetainEntry) (d : Disk) : Disk :=
  (backupPrune (world rejected) calendar (config retain) none true d).1

end OldArchives

/-- The older of two archives goes. -/
theorem backupPrune_keeps_two :
    min 1 ((OldArchives.all.archives OldArchives.two).countP
        fun key => !(OldArchives.world []).rejects key) ≤
      (OldArchives.all.archives
        (OldArchives.pruned [] [OldArchives.all] OldArchives.two)).length +
      ((OldArchives.all.archives OldArchives.two).filter fun key =>
        Exposed OldArchives.two [OldArchives.all] OldArchives.all key ∧
          key ∉ OldArchives.all.archives
            (OldArchives.pruned [] [OldArchives.all] OldArchives.two)).length ∧
    OldArchives.all.archives (OldArchives.pruned [] [OldArchives.all] OldArchives.two) =
      [⟨["srv"], "b.pgdump"⟩] :=
  ⟨backupPrune_keeps (OldArchives.world []) OldArchives.calendar
    (OldArchives.config [OldArchives.all]) none true OldArchives.two OldArchives.all
    (List.mem_singleton_self _), by decide⟩

/-- A floor is not kept when `pg_restore` rejects the archives, when another entry selects
them as well, and when they are links to what is removed. -/
theorem not_floorsKept :
    ¬ FloorsKept (OldArchives.config [OldArchives.all]) OldArchives.two
      (OldArchives.pruned ["a.pgdump", "b.pgdump"] [OldArchives.all] OldArchives.two) ∧
    ¬ FloorsKept (OldArchives.config [OldArchives.all, OldArchives.beginningWithA]) OldArchives.two
      (OldArchives.pruned [] [OldArchives.all, OldArchives.beginningWithA] OldArchives.two) ∧
    ¬ FloorsKept (OldArchives.config [OldArchives.all]) OldArchives.linked
      (OldArchives.pruned [] [OldArchives.all] OldArchives.linked) := by
  unfold FloorsKept
  decide

end Fraisier.Cli
