import Fraisier.Effect.Logic
import Fraisier.Lb.Nginx

/-!
# What a failed call of the nginx adapter leaves

Each operation changes a file or a link and then asks nginx to reload, and it reports a
failure when the reload fails. Read `errors_keep_iff` first: a call that fails leaves
everything as it was, except where the change had been made and the reload failed.
-/

namespace Fraisier.Lb

open Fraisier.Core Fraisier.Effect

/-! ## A disk -/

/-- A disk: the text that is read at a path, and what a link at a path points at. Different
paths are different places. -/
structure Disk where
  text : String → Option String
  link : String → Option String

/-- Put something at a path. -/
def Disk.put (s : Disk) (path : String) (text link : Option String) : Disk where
  text := Function.update s.text path text
  link := Function.update s.link path link

/-- Replace the text at a path. -/
def Disk.setText (s : Disk) (path : String) (text : Option String) : Disk :=
  { s with text := Function.update s.text path text }

/-- How a disk and nginx answer: which calls fail and why, what a write or a copy that failed
leaves, and what nginx left once it was started. -/
structure DiskOracle where
  fault : NginxCall → Option String
  left : NginxCall → Option String → Option String
  captured : Captured

/-- A call fails, or does what it does. -/
def DiskOracle.guarded {α : Type} (o : DiskOracle) (c : NginxCall) (failed : Disk)
    (done : Except String α × Disk) : Except String α × Disk :=
  match o.fault c with
  | some cause => (.error cause, failed)
  | none => done

/-- The disk answers a call. -/
def disk (o : DiskOracle) : Handler NginxSig Disk
  | .readToString path, s =>
      o.guarded (.readToString path) s
        (match s.text path with
          | some text => (.ok text, s)
          | none => (.error "No such file or directory (os error 2)", s))
  | .copy source target, s =>
      o.guarded (.copy source target)
        (s.setText target (o.left (.copy source target) (s.text target)))
        (.ok (), s.setText target (s.text source))
  | .write path text, s =>
      o.guarded (.write path text) (s.setText path (o.left (.write path text) (s.text path)))
        (.ok (), s.setText path (some text))
  | .rename source target, s =>
      o.guarded (.rename source target) s
        (.ok (), (s.put target (s.text source) (s.link source)).put source none none)
  | .createDirAll path, s => o.guarded (.createDirAll path) s (.ok (), s)
  | .pathExists path, s => ((o.fault (.pathExists path)).isNone && (s.text path).isSome, s)
  | .removeFile path, s => o.guarded (.removeFile path) s (.ok (), s.put path none none)
  | .symlink target path, s =>
      o.guarded (.symlink target path) s (.ok (), s.put path (s.text target) (some target))
  | .readLink path, s => o.guarded (.readLink path) s (.ok (s.link path), s)
  | .run program args, s => o.guarded (.run program args) s (.ok o.captured, s)

/-- Nginx can be started and reloads. -/
def DiskOracle.Reloads (o : DiskOracle) (lb : NginxLb) : Prop :=
  o.fault (.run lb.program ["-s", "reload"]) = none ∧ o.captured.succeeded = true

/-! ## What a call that fails has to keep -/

/-- The same text and the same link at a path. -/
def SameAt (path : String) (s s' : Disk) : Prop :=
  s'.text path = s.text path ∧ s'.link path = s.link path

/-- The configuration file is what it was. -/
def KeepsConfig (ctx : AdapterCtx) (s s' : Disk) : Prop :=
  ∀ path, NginxLb.stringSetting ctx "config_path" = some path → SameAt path s s'

/-- The active link is what it was. -/
def KeepsLink (ctx : AdapterCtx) (s s' : Disk) : Prop :=
  ∀ dir, NginxLb.stringSetting ctx "include_dir" = some dir →
    s'.link (NginxLb.activePath dir) = s.link (NginxLb.activePath dir)

/-- What is not one of the files of a switch is what it was. -/
def KeepsOthers (lb : NginxLb) (ctx : AdapterCtx) (target : String) (s s' : Disk) : Prop :=
  ∀ dir, NginxLb.stringSetting ctx "include_dir" = some dir →
    ∀ path, path ∉ [NginxLb.targetFile dir target, lb.temporaryLink (NginxLb.activePath dir),
      NginxLb.activePath dir] → SameAt path s s'

/-- When a call fails, its run has kept something. -/
def KeptOnError {α : Type} (p : Prog NginxSig (Except AdapterError α))
    (Kept : Disk → Disk → Prop) (o : DiskOracle) (s : Disk) : Prop :=
  ∀ sched error, (p.exec (disk o) sched s).value = .error error →
    Kept s (p.exec (disk o) sched s).final

/-! ## Where the reload decides -/

/-- The text that a toggled flag makes of a configuration. -/
def edit (ctx : AdapterCtx) (host : HostId) (down : Bool) (text : String) : Option String :=
  (NginxLb.stringSetting ctx "upstream").bind fun upstream =>
    (locate (Data.lines text) upstream (NginxLb.hostToken ctx host)).map fun found =>
      rewritten (Data.lines text) found.1 down

/-- The configuration can be read, edited and replaced. -/
structure Edits (ctx : AdapterCtx) (host : HostId) (down : Bool) (o : DiskOracle) (s : Disk)
    (path text new : String) : Prop where
  configPath : NginxLb.stringSetting ctx "config_path" = some path
  reads : o.fault (.readToString path) = none
  content : s.text path = some text
  edited : edit ctx host down text = some new
  writes : o.fault (.write (NginxLb.temporaryPath path) new) = none
  renames : o.fault (.rename (NginxLb.temporaryPath path) path) = none

/-- The configuration is edited to something else, and nginx does not reload. -/
def LeftEdited (lb : NginxLb) (ctx : AdapterCtx) (host : HostId) (down : Bool) (o : DiskOracle)
    (s : Disk) : Prop :=
  ∃ path text new, Edits ctx host down o s path text new ∧ ¬o.Reloads lb ∧
    (new ≠ text ∨ s.link (NginxLb.temporaryPath path) ≠ s.link path)

/-- The file of a target can be generated, or it is there. -/
def Provides (ctx : AdapterCtx) (upstream target file : String) (o : DiskOracle) (s : Disk) :
    Prop :=
  match NginxLb.targetServers ctx target with
  | some servers => o.fault (.write file (NginxLb.renderUpstream upstream servers)) = none
  | none => o.fault (.pathExists file) = none ∧ (s.text file).isSome = true

/-- The active link can be made to point at a target. -/
structure Switches (lb : NginxLb) (ctx : AdapterCtx) (target : String) (o : DiskOracle) (s : Disk)
    (dir upstream : String) : Prop where
  includeDir : NginxLb.stringSetting ctx "include_dir" = some dir
  named : NginxLb.stringSetting ctx "upstream" = some upstream
  creates : o.fault (.createDirAll dir) = none
  provides : Provides ctx upstream target (NginxLb.targetFile dir target) o s
  links : o.fault (.symlink (NginxLb.targetFile dir target)
    (lb.temporaryLink (NginxLb.activePath dir))) = none
  renames : o.fault (.rename (lb.temporaryLink (NginxLb.activePath dir))
    (NginxLb.activePath dir)) = none

/-- The active link is made to point elsewhere, and nginx does not reload. -/
def LeftSwitched (lb : NginxLb) (ctx : AdapterCtx) (target : String) (o : DiskOracle) (s : Disk) :
    Prop :=
  ∃ dir upstream, Switches lb ctx target o s dir upstream ∧ ¬o.Reloads lb ∧
    s.link (NginxLb.activePath dir) ≠ some (NginxLb.targetFile dir target)

/-! ## The paths -/

theorem getLast?_joinPath (base : String) {name : String} {c : Char}
    (h : name.toList.getLast? = some c) : (Data.joinPath base name).toList.getLast? = some c := by
  unfold Data.joinPath
  split
  · exact h
  · split
    · rw [String.toList_append, List.getLast?_append, h]
      rfl
    · rw [String.toList_append, List.getLast?_append, h]
      rfl

/-- The file name of a path below a base is the last component. -/
theorem fileName_joinPath (base : String) {name : String} (hslash : '/' ∉ name.toList)
    (hplain : name ∉ ["", ".", ".."]) :
    (Data.PathBuf.ofText (Data.joinPath base name)).fileName = some name := by
  obtain ⟨hempty, hhere, hup⟩ : name ≠ "" ∧ name ≠ "." ∧ name ≠ ".." := by simpa using hplain
  have hlast : ∃ before,
      (Data.joinPath base name).toList.splitOn '/' = before ++ [name.toList] := by
    have hsingle := List.splitOn_eq_singleton hslash
    have hhead : name.toList.head? ≠ some '/' := fun h => hslash (List.mem_of_head? h)
    rw [Data.joinPath, if_neg hhead]
    split
    · next hbase =>
      -- the separator is there already, or one is put in between
      obtain rfl | hends := hbase
      · exact ⟨[], by simpa using hsingle⟩
      · obtain ⟨front, hfront⟩ := List.getLast?_eq_some_iff.mp hends
        refine ⟨front.splitOn '/', ?_⟩
        rw [String.toList_append, hfront, List.append_assoc, List.singleton_append,
          List.splitOn_append_cons_self, hsingle]
    · refine ⟨base.toList.splitOn '/', ?_⟩
      have htext : (base ++ "/" ++ name).toList = base.toList ++ '/' :: name.toList := by simp
      rw [htext, List.splitOn_append_cons_self, hsingle]
  obtain ⟨before, hsplit⟩ := hlast
  rw [Data.PathBuf.fileName, Data.PathBuf.ofText, hsplit]
  simp [hempty, hhere, hup]

theorem getLast?_activePath (dir : String) :
    (NginxLb.activePath dir).toList.getLast? = some 'm' :=
  getLast?_joinPath dir (by decide)

theorem getLast?_temporaryPath (path : String) :
    (NginxLb.temporaryPath path).toList.getLast? = some 'p' := by
  rw [NginxLb.temporaryPath, String.toList_append, List.getLast?_append]
  rfl

theorem temporaryPath_ne (path : String) : NginxLb.temporaryPath path ≠ path := by
  intro h
  have hlength := congrArg String.length h
  simp [NginxLb.temporaryPath] at hlength

theorem backupPath_ne (path : String) : NginxLb.backupPath path ≠ path := by
  intro h
  have hlength := congrArg String.length h
  simp [NginxLb.backupPath] at hlength

theorem temporaryPath_ne_activePath (path dir : String) :
    NginxLb.temporaryPath path ≠ NginxLb.activePath dir := by
  intro h
  have hlast := getLast?_temporaryPath path
  rw [h, getLast?_activePath] at hlast
  cases hlast

/-- The temporary link ends in a digit of the process number. -/
theorem exists_getLast?_temporaryLink (lb : NginxLb) (path : String) :
    ∃ c, (lb.temporaryLink path).toList.getLast? = some c ∧ c.isDigit = true := by
  obtain ⟨c, hc⟩ : ∃ c, (Nat.toDigits 10 lb.pid).getLast? = some c :=
    ⟨_, List.getLast?_eq_some_getLast Nat.toDigits_ne_nil⟩
  have hdigit : c.isDigit = true :=
    Nat.isDigit_of_mem_toDigits (by decide) (by decide) (List.mem_of_getLast? hc)
  have hpid : (toString lb.pid).toList.getLast? = some c := by
    rw [Nat.toString_eq_ofList_toDigits, String.toList_ofList]
    exact hc
  refine ⟨c, ?_, hdigit⟩
  have hname : ∀ name : String,
      (name ++ ".fraisier-tmp-" ++ toString lb.pid).toList.getLast? = some c := by
    intro name
    rw [String.toList_append, List.getLast?_append, hpid]
    rfl
  unfold NginxLb.temporaryLink Data.withFileName
  split
  · exact getLast?_joinPath _ (hname _)
  · exact getLast?_joinPath _ (hname _)

theorem temporaryLink_ne (lb : NginxLb) (dir : String) :
    lb.temporaryLink (NginxLb.activePath dir) ≠ NginxLb.activePath dir := by
  intro h
  obtain ⟨c, hlast, hdigit⟩ := exists_getLast?_temporaryLink lb (NginxLb.activePath dir)
  rw [h, getLast?_activePath] at hlast
  cases hlast
  cases hdigit

/-! ## Single calls -/

section Calls

variable {o : DiskOracle} {s : Disk}

theorem SameAt.refl (path : String) (s : Disk) : SameAt path s s :=
  ⟨rfl, rfl⟩

theorem SameAt.trans {path : String} {s s' s'' : Disk} (h : SameAt path s s')
    (h' : SameAt path s' s'') : SameAt path s s'' :=
  ⟨h'.1.trans h.1, h'.2.trans h.2⟩

theorem sameAt_setText {path other : String} (hne : path ≠ other) (text : Option String) :
    SameAt path s (s.setText other text) := by
  simp [SameAt, Disk.setText, hne]

theorem sameAt_put {path other : String} (hne : path ≠ other) (text link : Option String) :
    SameAt path s (s.put other text link) := by
  simp [SameAt, Disk.put, hne]

theorem wp_ask {c : NginxCall} {Q : NginxSig.Ans c → Disk → Prop}
    (hQ : Q (disk o c s).1 (disk o c s).2) : wp (disk o) Eq Guarantee.any (ask c) Q s :=
  wp_perform.mpr ⟨trivial, hQ⟩

/-- A reload changes nothing on the disk. -/
theorem reload_spec (lb : NginxLb) (operation : String) :
    wp (disk o) Eq Guarantee.any (lb.reload operation)
      (fun r s' => s' = s ∧ (r = .ok () ↔ o.Reloads lb)) s := by
  refine wp_bind (wp_ask ?_)
  cases hfault : o.fault (.run lb.program ["-s", "reload"]) with
  | some cause =>
      simp only [disk, DiskOracle.guarded, hfault]
      refine wp_ret.mpr ⟨rfl, ?_⟩
      simp [DiskOracle.Reloads, hfault]
  | none =>
      simp only [disk, DiskOracle.guarded, hfault]
      split
      · rename_i hsucceeded
        exact wp_ret.mpr ⟨rfl, iff_of_true rfl ⟨hfault, hsucceeded⟩⟩
      · rename_i hfailed
        refine wp_ret.mpr ⟨rfl, iff_of_false (by simp) ?_⟩
        exact fun h => hfailed h.2

/-- A copy may change the text at its target, and nothing else. -/
theorem wp_copy {source target : String} {Q : Except String Unit → Disk → Prop}
    (hQ : ∀ r text, Q r (s.setText target text)) :
    wp (disk o) Eq Guarantee.any (ask (.copy source target)) Q s := by
  refine wp_ask ?_
  simp only [disk, DiskOracle.guarded]
  split
  · exact hQ _ _
  · exact hQ _ _

/-- A file is replaced when its new text can be written and renamed. A failure leaves the
file alone. -/
theorem writeAtomic_spec (path content operation : String) :
    wp (disk o) Eq Guarantee.any (NginxLb.writeAtomic path content operation)
      (fun r s' =>
        (r = .ok () ↔ o.fault (.write (NginxLb.temporaryPath path) content) = none ∧
          o.fault (.rename (NginxLb.temporaryPath path) path) = none) ∧
        (r = .ok () → s'.text path = some content ∧
          s'.link path = s.link (NginxLb.temporaryPath path)) ∧
        (r ≠ .ok () → SameAt path s s') ∧
        ∀ other, other ≠ path → other ≠ NginxLb.temporaryPath path →
          s'.link other = s.link other) s := by
  refine wp_bind (wp_copy fun r backup => ?_)
  refine wp_bind (wp_ask ?_)
  have hbackup : SameAt path s (s.setText (NginxLb.backupPath path) backup) :=
    sameAt_setText (backupPath_ne path).symm backup
  have htemporary : ∀ text, SameAt path s
      ((s.setText (NginxLb.backupPath path) backup).setText (NginxLb.temporaryPath path) text) :=
    fun text => hbackup.trans (sameAt_setText (temporaryPath_ne path).symm text)
  cases hwrite : o.fault (.write (NginxLb.temporaryPath path) content) with
  | some cause =>
      simp only [disk, DiskOracle.guarded, hwrite]
      exact wp_ret.mpr ⟨by simp, by simp, fun _ => htemporary _, fun _ _ _ => rfl⟩
  | none =>
      simp only [disk, DiskOracle.guarded, hwrite]
      refine wp_bind (wp_ask ?_)
      cases hrename : o.fault (.rename (NginxLb.temporaryPath path) path) with
      | some cause =>
          simp only [disk, DiskOracle.guarded, hrename]
          exact wp_ret.mpr ⟨by simp, by simp, fun _ => htemporary _, fun _ _ _ => rfl⟩
      | none =>
          simp only [disk, DiskOracle.guarded, hrename]
          refine wp_ret.mpr ⟨by simp, fun _ => ?_, by simp, fun other hne hne' => ?_⟩
          · simp [Disk.put, Disk.setText, (temporaryPath_ne path).symm]
          · simp [Disk.put, Disk.setText, hne, hne']

end Calls

/-! ## Draining and reattaching -/

section Apply

variable {lb : NginxLb} {ctx : AdapterCtx} {host : HostId} {down : Bool} {o : DiskOracle} {s : Disk}

/-- Where no edit is made, none is left. -/
theorem not_leftEdited (h : ∀ path text new, ¬Edits ctx host down o s path text new) :
    ¬LeftEdited lb ctx host down o s := by
  rintro ⟨path, text, new, hedits, -⟩
  exact h path text new hedits

/-- What a run that changed neither the configuration nor a link has kept. -/
theorem keeps_of_sameAt {path : String}
    (hpath : NginxLb.stringSetting ctx "config_path" = some path) {s' : Disk}
    (hsame : SameAt path s s')
    (hlinks : ∀ other, other ≠ path → other ≠ NginxLb.temporaryPath path →
      s'.link other = s.link other) :
    KeepsConfig ctx s s' ∧ KeepsLink ctx s s' := by
  refine ⟨?_, ?_⟩
  · intro path' hpath'
    cases hpath.symm.trans hpath'
    exact hsame
  · intro dir _
    by_cases hactive : NginxLb.activePath dir = path
    · rw [hactive]
      exact hsame.2
    · exact hlinks _ hactive (temporaryPath_ne_activePath path dir).symm

/-- Toggling a flag keeps what it has to when it fails, unless the edit is made and the reload
fails. -/
theorem apply_spec (operation : String) :
    wp (disk o) Eq Guarantee.any (lb.apply ctx host operation down)
      (fun r s' => ((∃ error, r = .error error) → KeepsConfig ctx s s' ∧ KeepsLink ctx s s') ↔
        ¬LeftEdited lb ctx host down o s) s := by
  have hkept : KeepsConfig ctx s s ∧ KeepsLink ctx s s := ⟨fun _ _ => .refl _ _, fun _ _ => rfl⟩
  unfold NginxLb.apply NginxLb.setting
  cases hpath : NginxLb.stringSetting ctx "config_path" with
  | none =>
      refine wp_ret.mpr (iff_of_true (fun _ => hkept) (not_leftEdited ?_))
      intro path text new hedits
      cases hpath.symm.trans hedits.configPath
  | some path =>
  cases hupstream : NginxLb.stringSetting ctx "upstream" with
  | none =>
      refine wp_ret.mpr (iff_of_true (fun _ => hkept) (not_leftEdited ?_))
      intro path text new hedits
      have hedit := hedits.edited
      rw [edit, hupstream] at hedit
      cases hedit
  | some upstream =>
  refine wp_bind (wp_ask ?_)
  cases hread : o.fault (.readToString path) with
  | some cause =>
      simp only [disk, DiskOracle.guarded, hread]
      refine wp_ret.mpr (iff_of_true (fun _ => hkept) (not_leftEdited ?_))
      intro path' text new hedits
      cases hpath.symm.trans hedits.configPath
      cases hread.symm.trans hedits.reads
  | none =>
  simp only [disk, DiskOracle.guarded, hread]
  cases htext : s.text path with
  | none =>
      refine wp_ret.mpr (iff_of_true (fun _ => hkept) (not_leftEdited ?_))
      intro path' text new hedits
      cases hpath.symm.trans hedits.configPath
      cases htext.symm.trans hedits.content
  | some text =>
  dsimp only
  have hedit : edit ctx host down text =
      (locate (Data.lines text) upstream (NginxLb.hostToken ctx host)).map fun found =>
        rewritten (Data.lines text) found.1 down := by
    rw [edit, hupstream, Option.bind_some]
  cases hlocate : locate (Data.lines text) upstream (NginxLb.hostToken ctx host) with
  | none =>
      refine wp_ret.mpr (iff_of_true (fun _ => hkept) (not_leftEdited ?_))
      intro path' text' new hedits
      cases hpath.symm.trans hedits.configPath
      cases htext.symm.trans hedits.content
      rw [hlocate] at hedit
      cases hedit.symm.trans hedits.edited
  | some found =>
  obtain ⟨index, prior⟩ := found
  rw [hlocate] at hedit
  dsimp only
  refine wp_bind (wp_post ?_ (writeAtomic_spec path (rewritten (Data.lines text) index down)
    operation))
  rintro r s' ⟨hiff, hreplaced, hsame, hlinks⟩
  rcases r with error | _
  · refine wp_ret.mpr (iff_of_true (fun _ => ?_) (not_leftEdited ?_))
    · exact keeps_of_sameAt hpath (hsame (by simp)) hlinks
    · intro path' text' new hedits
      cases hpath.symm.trans hedits.configPath
      cases htext.symm.trans hedits.content
      cases hedit.symm.trans hedits.edited
      cases hiff.mpr ⟨hedits.writes, hedits.renames⟩
  · obtain ⟨hwrites, hrenames⟩ := hiff.mp rfl
    obtain ⟨hnew, hlink⟩ := hreplaced rfl
    have hedits : Edits ctx host down o s path text (rewritten (Data.lines text) index down) :=
      ⟨hpath, hread, htext, hedit, hwrites, hrenames⟩
    refine wp_bind (wp_post ?_ (reload_spec lb operation))
    rintro r s'' ⟨rfl, hreload⟩
    rcases r with error | _
    · have hfails : ¬o.Reloads lb := fun h => by cases hreload.mpr h
      refine wp_ret.mpr ⟨?_, ?_⟩
      · rintro hkeeps ⟨path', text', new, hedits', -, hchanged⟩
        obtain ⟨hconfig, -⟩ := hkeeps ⟨error, rfl⟩
        cases hpath.symm.trans hedits'.configPath
        cases htext.symm.trans hedits'.content
        cases hedit.symm.trans hedits'.edited
        obtain ⟨hsametext, hsamelink⟩ := hconfig path hpath
        rcases hchanged with hchanged | hchanged
        · rw [hnew, htext] at hsametext
          exact hchanged (Option.some.inj hsametext)
        · exact hchanged (hlink.symm.trans hsamelink)
      · intro hnot _
        refine keeps_of_sameAt hpath ⟨?_, ?_⟩ hlinks
        · by_contra hne
          refine hnot ⟨path, text, _, hedits, hfails, .inl ?_⟩
          rintro hsame
          exact hne (by rw [hnew, hsame, htext])
        · by_contra hne
          exact hnot ⟨path, text, _, hedits, hfails, .inr fun h => hne (hlink.trans h)⟩
    · refine wp_ret.mpr (iff_of_true (fun herror => ?_) ?_)
      · obtain ⟨error, herror⟩ := herror
        cases herror
      · rintro ⟨path', text', new, -, hfails, -⟩
        exact hfails (hreload.mp rfl)

/-- Toggling a flag that succeeds rewrites the line that is located, and returns the membership
there. Where no line is located, nothing changes. -/
theorem apply_writes {path upstream text : String}
    (hpath : NginxLb.stringSetting ctx "config_path" = some path)
    (hupstream : NginxLb.stringSetting ctx "upstream" = some upstream)
    (htext : s.text path = some text) (operation : String) :
    wp (disk o) Eq Guarantee.any (lb.apply ctx host operation down)
      (fun result s' =>
        (∀ prior, result = .ok prior → ∃ index,
          locate (Data.lines text) upstream (NginxLb.hostToken ctx host) = some (index, prior) ∧
          s'.text path = some (rewritten (Data.lines text) index down)) ∧
        (locate (Data.lines text) upstream (NginxLb.hostToken ctx host) = none →
          s' = s ∧ ∃ error, result = .error error)) s := by
  unfold NginxLb.apply NginxLb.setting
  rw [hpath, hupstream]
  refine wp_bind (wp_ask ?_)
  cases hread : o.fault (.readToString path) with
  | some cause =>
      simp only [disk, DiskOracle.guarded, hread]
      exact wp_ret.mpr ⟨fun _ h => (by cases h), fun _ => ⟨rfl, _, rfl⟩⟩
  | none =>
  simp only [disk, DiskOracle.guarded, hread, htext]
  cases hlocate : locate (Data.lines text) upstream (NginxLb.hostToken ctx host) with
  | none => exact wp_ret.mpr ⟨fun _ h => (by cases h), fun _ => ⟨rfl, _, rfl⟩⟩
  | some found =>
  obtain ⟨index, prior⟩ := found
  dsimp only
  refine wp_bind (wp_post ?_ (writeAtomic_spec path (rewritten (Data.lines text) index down)
    operation))
  rintro result s' ⟨-, hreplaced, -, -⟩
  rcases result with error | _
  · exact wp_ret.mpr ⟨fun _ h => (by cases h), fun h => (by cases h)⟩
  · refine wp_bind (wp_post ?_ (reload_spec lb operation))
    rintro result s'' ⟨rfl, -⟩
    rcases result with error | _
    · exact wp_ret.mpr ⟨fun _ h => (by cases h), fun h => (by cases h)⟩
    · refine wp_ret.mpr ⟨fun prior' h => ?_, fun h => (by cases h)⟩
      cases h
      exact ⟨index, rfl, (hreplaced rfl).1⟩

end Apply

/-! ## Switching -/

section Switch

variable {lb : NginxLb} {ctx : AdapterCtx} {target : String} {o : DiskOracle} {s : Disk}

/-- Providing the file of a target changes the text of that file at most. -/
theorem provideTarget_spec (upstream file : String) :
    wp (disk o) Eq Guarantee.any (NginxLb.provideTarget ctx upstream target file)
      (fun r s' => (r = .ok () ↔ Provides ctx upstream target file o s) ∧ s'.link = s.link ∧
        ∀ path, path ≠ file → SameAt path s s') s := by
  unfold NginxLb.provideTarget Provides
  cases NginxLb.targetServers ctx target with
  | some servers =>
      refine wp_bind (wp_ask ?_)
      cases hwrite : o.fault (.write file (NginxLb.renderUpstream upstream servers)) with
      | some cause =>
          simp only [disk, DiskOracle.guarded, hwrite]
          exact wp_ret.mpr ⟨by simp, rfl, fun _ hne => sameAt_setText hne _⟩
      | none =>
          simp only [disk, DiskOracle.guarded, hwrite]
          exact wp_ret.mpr ⟨by simp, rfl, fun _ hne => sameAt_setText hne _⟩
  | none =>
      refine wp_bind (wp_ask ?_)
      refine wp_ite (fun hthere => wp_ret.mpr ?_) (fun hmissing => wp_ret.mpr ?_)
      · exact ⟨by simpa [disk] using hthere, rfl, fun _ _ => .refl _ _⟩
      · exact ⟨by simpa [disk] using hmissing, rfl, fun _ _ => .refl _ _⟩

/-- A removal may clear its path, and changes nothing else. -/
theorem wp_removeFile {path : String} {Q : Except String Unit → Disk → Prop}
    (hQ : ∀ r s', (∀ other, other ≠ path → SameAt other s s') → Q r s') :
    wp (disk o) Eq Guarantee.any (ask (.removeFile path)) Q s := by
  refine wp_ask ?_
  simp only [disk, DiskOracle.guarded]
  split
  · exact hQ _ _ fun _ _ => .refl _ _
  · exact hQ _ _ fun _ hne => sameAt_put hne _ _

/-- A link is replaced when the new one can be made and renamed. -/
theorem activateSymlink_spec {path : String} (hpath : lb.temporaryLink path ≠ path)
    (staged operation : String) :
    wp (disk o) Eq Guarantee.any (lb.activateSymlink path staged operation)
      (fun r s' =>
        (r = .ok () ↔ o.fault (.symlink staged (lb.temporaryLink path)) = none ∧
          o.fault (.rename (lb.temporaryLink path) path) = none) ∧
        (r = .ok () → s'.link path = some staged) ∧
        (r ≠ .ok () → SameAt path s s') ∧
        ∀ other, other ≠ path → other ≠ lb.temporaryLink path → SameAt other s s') s := by
  refine wp_bind (wp_removeFile fun r s₁ hremoved => ?_)
  refine wp_bind (wp_ask ?_)
  cases hlink : o.fault (.symlink staged (lb.temporaryLink path)) with
  | some cause =>
      simp only [disk, DiskOracle.guarded, hlink]
      exact wp_ret.mpr ⟨by simp, by simp, fun _ => hremoved path hpath.symm,
        fun other _ hne => hremoved other hne⟩
  | none =>
      simp only [disk, DiskOracle.guarded, hlink]
      have hlinked : ∀ other, other ≠ lb.temporaryLink path →
          SameAt other s (s₁.put (lb.temporaryLink path) (s₁.text staged) (some staged)) :=
        fun other hne => (hremoved other hne).trans (sameAt_put hne _ _)
      refine wp_bind (wp_ask ?_)
      cases hrename : o.fault (.rename (lb.temporaryLink path) path) with
      | some cause =>
          simp only [disk, DiskOracle.guarded, hrename]
          refine wp_bind (wp_removeFile fun r s₂ hremoved₂ => ?_)
          have hsame : ∀ other, other ≠ lb.temporaryLink path → SameAt other s s₂ :=
            fun other hne => (hlinked other hne).trans (hremoved₂ other hne)
          exact wp_ret.mpr ⟨by simp, by simp, fun _ => hsame path hpath.symm,
            fun other _ hne => hsame other hne⟩
      | none =>
          simp only [disk, DiskOracle.guarded, hrename]
          refine wp_ret.mpr ⟨by simp, fun _ => ?_, by simp, fun other hne hne' => ?_⟩
          · simp [Disk.put, hpath.symm]
          · exact ((hlinked other hne').trans (sameAt_put hne _ _)).trans (sameAt_put hne' _ _)

/-- What a run has kept that left the files of a switch alone, or the active link at least. -/
theorem keeps_of_include {dir : String}
    (hdir : NginxLb.stringSetting ctx "include_dir" = some dir) {s' : Disk}
    (hlink : s'.link (NginxLb.activePath dir) = s.link (NginxLb.activePath dir))
    (hothers : ∀ path, path ∉ [NginxLb.targetFile dir target,
      lb.temporaryLink (NginxLb.activePath dir), NginxLb.activePath dir] → SameAt path s s') :
    KeepsLink ctx s s' ∧ KeepsOthers lb ctx target s s' := by
  refine ⟨?_, ?_⟩
  · intro dir' hdir'
    cases hdir.symm.trans hdir'
    exact hlink
  · intro dir' hdir'
    cases hdir.symm.trans hdir'
    exact hothers

theorem not_leftSwitched (h : ∀ dir upstream, ¬Switches lb ctx target o s dir upstream) :
    ¬LeftSwitched lb ctx target o s := by
  rintro ⟨dir, upstream, hswitches, -⟩
  exact h dir upstream hswitches

/-- A switch keeps what it has to when it fails, unless the link is switched and the reload
fails. -/
theorem switchTo_spec :
    wp (disk o) Eq Guarantee.any (lb.switchTo ctx target)
      (fun r s' => ((∃ error, r = .error error) →
          KeepsLink ctx s s' ∧ KeepsOthers lb ctx target s s') ↔
        ¬LeftSwitched lb ctx target o s) s := by
  have hkept : KeepsLink ctx s s ∧ KeepsOthers lb ctx target s s :=
    ⟨fun _ _ => rfl, fun _ _ _ _ => .refl _ _⟩
  unfold NginxLb.switchTo NginxLb.setting
  cases hdir : NginxLb.stringSetting ctx "include_dir" with
  | none =>
      refine wp_ret.mpr (iff_of_true (fun _ => hkept) (not_leftSwitched ?_))
      intro dir upstream hswitches
      cases hdir.symm.trans hswitches.includeDir
  | some dir =>
  cases hupstream : NginxLb.stringSetting ctx "upstream" with
  | none =>
      refine wp_ret.mpr (iff_of_true (fun _ => hkept) (not_leftSwitched ?_))
      intro dir' upstream hswitches
      cases hupstream.symm.trans hswitches.named
  | some upstream =>
  refine wp_bind (wp_ask ?_)
  cases hcreate : o.fault (.createDirAll dir) with
  | some cause =>
      simp only [disk, DiskOracle.guarded, hcreate]
      refine wp_ret.mpr (iff_of_true (fun _ => hkept) (not_leftSwitched ?_))
      intro dir' upstream' hswitches
      cases hdir.symm.trans hswitches.includeDir
      cases hcreate.symm.trans hswitches.creates
  | none =>
  simp only [disk, DiskOracle.guarded, hcreate]
  refine wp_bind (wp_post ?_ (provideTarget_spec upstream (NginxLb.targetFile dir target)))
  rintro r s₁ ⟨hprovides, hlinks, hothers⟩
  rcases r with error | _
  · refine wp_ret.mpr (iff_of_true (fun _ => ?_) (not_leftSwitched ?_))
    · refine keeps_of_include hdir (by rw [hlinks]) fun path hpath => hothers path ?_
      rintro rfl
      exact hpath List.mem_cons_self
    · intro dir' upstream' hswitches
      cases hdir.symm.trans hswitches.includeDir
      cases hupstream.symm.trans hswitches.named
      cases hprovides.mpr hswitches.provides
  refine wp_bind (wp_post ?_ (activateSymlink_spec (temporaryLink_ne lb dir)
    (NginxLb.targetFile dir target) "switch_to"))
  rintro r s₂ ⟨hactivates, hactive, hsame, hothers'⟩
  have hfiles : ∀ path, path ∉ [NginxLb.targetFile dir target,
      lb.temporaryLink (NginxLb.activePath dir), NginxLb.activePath dir] → SameAt path s s₂ := by
    intro path hpath
    simp only [List.mem_cons, List.not_mem_nil, or_false, not_or] at hpath
    exact (hothers path hpath.1).trans (hothers' path hpath.2.2 hpath.2.1)
  rcases r with error | _
  · refine wp_ret.mpr (iff_of_true (fun _ => ?_) (not_leftSwitched ?_))
    · refine keeps_of_include hdir ?_ hfiles
      rw [(hsame (by simp)).2, hlinks]
    · intro dir' upstream' hswitches
      cases hdir.symm.trans hswitches.includeDir
      cases hactivates.mpr ⟨hswitches.links, hswitches.renames⟩
  have hswitches : Switches lb ctx target o s dir upstream :=
    ⟨hdir, hupstream, hcreate, hprovides.mp rfl, (hactivates.mp rfl).1, (hactivates.mp rfl).2⟩
  refine wp_bind (wp_post ?_ (reload_spec lb "switch_to"))
  rintro r s₃ ⟨rfl, hreload⟩
  rcases r with error | _
  · have hfails : ¬o.Reloads lb := fun h => by cases hreload.mpr h
    refine wp_ret.mpr ⟨?_, ?_⟩
    · rintro hkeeps ⟨dir', upstream', hswitches', -, hchanged⟩
      cases hdir.symm.trans hswitches'.includeDir
      obtain ⟨hlink, -⟩ := hkeeps ⟨error, rfl⟩
      exact hchanged ((hlink dir hdir).symm.trans (hactive rfl))
    · intro hnot _
      refine keeps_of_include hdir ?_ hfiles
      by_contra hne
      exact hnot ⟨dir, upstream, hswitches, hfails, fun h => hne ((hactive rfl).trans h.symm)⟩
  · refine wp_ret.mpr (iff_of_true (fun herror => ?_) ?_)
    · obtain ⟨error, herror⟩ := herror
      cases herror
    · rintro ⟨dir', upstream', -, hfails, -⟩
      exact hfails (hreload.mp rfl)

/-- The target that is named as live is the one whose file the active link leads to, whether or
not nginx has read it. -/
theorem currentTarget_of_link (hdir : NginxLb.stringSetting ctx "include_dir" = some dir)
    (hread : o.fault (.readLink (NginxLb.activePath dir)) = none)
    (hlink : s.link (NginxLb.activePath dir) = some (NginxLb.targetFile dir target))
    (htarget : '/' ∉ target.toList) (sched : List Bool) :
    ((NginxLb.currentTarget ctx).exec (disk o) sched s).value = .ok target := by
  have hname : (Data.PathBuf.ofText (NginxLb.targetFile dir target)).fileName =
      some (target ++ ".upstream.conf") := by
    refine fileName_joinPath dir ?_ ?_
    · rw [String.toList_append, List.mem_append, not_or]
      exact ⟨htarget, by decide⟩
    · -- A target's file has more than two characters.
      have hlong : 2 < (target ++ ".upstream.conf").length := by
        rw [String.length_append]
        exact Nat.lt_of_lt_of_le (by decide) (Nat.le_add_left _ _)
      intro hmem
      simp only [List.mem_cons, List.not_mem_nil, or_false] at hmem
      obtain hname | hname | hname := hmem <;>
      · rw [hname] at hlong
        exact absurd hlong (by decide)
  have hwp : wp (disk o) Eq Guarantee.any (NginxLb.currentTarget ctx)
      (fun result _ => result = .ok target) s := by
    unfold NginxLb.currentTarget NginxLb.setting
    simp only [hdir]
    refine wp_bind (wp_ask ?_)
    simp only [disk, DiskOracle.guarded, hread, hlink, Option.bind_some, hname]
    exact wp_ret.mpr (by rw [Data.stripSuffix_append]; rfl)
  exact (wp_exec hwp sched).1
end Switch

/-! ## Calls that fail -/

/-- What is shown of every run of an operation, read as a statement about the operation. -/
theorem keptOnError_iff {α : Type} {p : Prog NginxSig (Except AdapterError α)}
    {Kept : Disk → Disk → Prop} {o : DiskOracle} {s : Disk} {P : Prop}
    (hp : wp (disk o) Eq Guarantee.any p
      (fun r s' => ((∃ error, r = .error error) → Kept s s') ↔ P) s) :
    KeptOnError p Kept o s ↔ P := by
  constructor
  · intro hkept
    refine (wp_exec hp []).1.mp ?_
    rintro ⟨error, herror⟩
    exact hkept [] error herror
  · intro hP sched error herror
    exact (wp_exec hp sched).1.mpr hP ⟨error, herror⟩

/-- Whatever the configuration, the host and the target, and whichever calls of the file system
or of nginx fail: an operation that returns an error leaves the configuration file and the
active link as they were exactly when it is not the reload that fails after they were
changed. -/
theorem errors_keep_iff (lb : NginxLb) (ctx : AdapterCtx) (host : HostId) (prior : LbMembership)
    (target : String) (o : DiskOracle) (s : Disk) :
    (KeptOnError (lb.drain ctx host) (fun s s' => KeepsConfig ctx s s' ∧ KeepsLink ctx s s') o s ↔
      ¬LeftEdited lb ctx host true o s) ∧
    (KeptOnError (lb.reattach ctx host prior)
        (fun s s' => KeepsConfig ctx s s' ∧ KeepsLink ctx s s') o s ↔
      ¬LeftEdited lb ctx host (decide (prior.state ≠ .inPool)) o s) ∧
    (KeptOnError (lb.switchTo ctx target)
        (fun s s' => KeepsLink ctx s s' ∧ KeepsOthers lb ctx target s s') o s ↔
      ¬LeftSwitched lb ctx target o s) := by
  refine ⟨keptOnError_iff (apply_spec "drain"), keptOnError_iff ?_, keptOnError_iff switchTo_spec⟩
  refine wp_bind (wp_post ?_ (apply_spec "reattach"))
  rintro (error | membership) s' hspec
  · refine wp_ret.mpr (Iff.trans ?_ hspec)
    exact ⟨fun h _ => h ⟨error, rfl⟩, fun h _ => h ⟨error, rfl⟩⟩
  · refine wp_ret.mpr (Iff.trans ?_ hspec)
    refine iff_of_true ?_ ?_
    · rintro ⟨error, herror⟩
      cases herror
    · rintro ⟨error, herror⟩
      cases herror

/-- A host on which nothing fails, except that nginx exits with 1 when it is told to
reload. -/
def brokenReload : DiskOracle where
  fault _ := none
  left _ before := before
  captured := { code := some 1, stdout := "", stderr := "", report := none }

/-- A host whose file system and nginx do what they are told. -/
def soundHost : DiskOracle where
  fault _ := none
  left _ before := before
  captured := { code := some 0, stdout := "", stderr := "", report := none }

/-- A disk with one file and no links. -/
def diskOf (path text : String) : Disk where
  text := Function.update (fun _ => none) path (some text)
  link _ := none

/-- A context with the settings of both kinds of operation. -/
def shopPool : AdapterCtx :=
  { AdapterCtx.new "shop" "production" with
    settings := [("config_path", .str "/etc/pool.conf"), ("upstream", .str "shop"),
      ("include_dir", .str "/etc/pool"), ("targets", .obj [("green", .arr [.str "web:80"])])] }

/-- The reload fails after the directive of the host is marked, and after the active link is
made. Both calls return an error, and both changes stay. -/
theorem failedReload_leaves_changes :
    ¬KeptOnError ((NginxLb.mk "nginx" 1).drain shopPool ⟨"web"⟩)
      (fun s s' => KeepsConfig shopPool s s' ∧ KeepsLink shopPool s s') brokenReload
      (diskOf "/etc/pool.conf" "upstream shop \x7b\nserver web:80;\n\x7d\n") ∧
    ¬KeptOnError ((NginxLb.mk "nginx" 1).switchTo shopPool "green")
      (fun s s' => KeepsLink shopPool s s' ∧
        KeepsOthers (NginxLb.mk "nginx" 1) shopPool "green" s s') brokenReload
      (diskOf "/etc/pool.conf" "") := by
  have hfails : ¬brokenReload.Reloads (NginxLb.mk "nginx" 1) := by
    rintro ⟨-, hcode⟩
    cases hcode
  constructor
  · refine mt (keptOnError_iff (apply_spec "drain")).mp (not_not.mpr ?_)
    refine ⟨"/etc/pool.conf", "upstream shop \x7b\nserver web:80;\n\x7d\n",
      "upstream shop \x7b\nserver web:80 down;\n\x7d\n",
      ⟨by decide +kernel, rfl, by simp [diskOf],
        by decide +kernel, rfl, rfl⟩, hfails, .inl ?_⟩
    decide +kernel
  · refine mt (keptOnError_iff switchTo_spec).mp (not_not.mpr ?_)
    refine ⟨"/etc/pool", "shop", ⟨by decide +kernel, by decide +kernel, rfl, ?_, rfl, rfl⟩,
      hfails, ?_⟩
    · have hservers : NginxLb.targetServers shopPool "green" = some ["web:80"] := by
        decide +kernel
      rw [Provides, hservers]
      rfl
    · exact fun h => by cases h

end Fraisier.Lb
