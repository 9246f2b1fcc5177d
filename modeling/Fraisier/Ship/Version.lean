import Fraisier.Data.Paths
import Fraisier.Data.Toml
import Mathlib.Algebra.Group.Nat.Defs

/-!
# The version of a project

A version is read from one of a few keys of `Cargo.toml` or `pyproject.toml`, and written to one
of them. The reader looks for a text, the writer for any value: `bump_exact_iff` says when they
meet at one key. Parsing and printing documents and versions are parameters.
-/

namespace Fraisier.Ship

open Fraisier.Data
open Fraisier.Data.Toml (Item Decor)

/-- Which kind of project a version file belongs to. -/
inductive ProjectKind where
  | cargo
  | pyProject
deriving DecidableEq

def ProjectKind.fileName : ProjectKind → String
  | .cargo => "Cargo.toml"
  | .pyProject => "pyproject.toml"

/-- Which component of a version is incremented. -/
inductive Bump where
  | major
  | minor
  | patch
deriving DecidableEq

/-- A located version. -/
structure VersionInfo where
  kind : ProjectKind
  path : String
  version : String
deriving DecidableEq

/-- What reading or bumping a version fails with, with the causes as texts. -/
inductive ShipError where
  | noVersionFile (dir : String)
  | noVersionField (path detail : String)
  | toml (path source : String)
  | semver (version source : String)
  | read (path source : String)
  | write (path source : String)
deriving DecidableEq

/-- The core of a semantic version. -/
structure Version where
  major : Nat
  minor : Nat
  patch : Nat
deriving DecidableEq

def Version.text (version : Version) : String :=
  toString version.major ++ "." ++ toString version.minor ++ "." ++ toString version.patch

/-- What is done elsewhere: parsing and printing documents, looking a key up in an item so that
what is found may be written, and parsing versions. The look-up also tells what becomes of the
item. -/
structure Crates where
  parse : String → Except String Item
  print : Item → String
  getMut : Item → String → Option Item × Item
  semver : String → Except String Version

/-- A component and one, as a build computes it that does not check for overflow. -/
def increment (component : Nat) : Nat :=
  (component + 1) % 2 ^ 64

/-- The version after a bump, without what follows its core. -/
def nextVersion (crates : Crates) (current : String) (level : Bump) : Except ShipError String :=
  match crates.semver current with
  | .error source => .error (.semver current source)
  | .ok v =>
      let next : Version :=
        match level with
        | .major => ⟨increment v.major, 0, 0⟩
        | .minor => ⟨v.major, increment v.minor, 0⟩
        | .patch => ⟨v.major, v.minor, increment v.patch⟩
      .ok next.text

/-- The keys a version may be under, the first that has one counts. -/
def candidatePaths : ProjectKind → List (List String)
  | .cargo => [["package", "version"], ["workspace", "package", "version"]]
  | .pyProject => [["project", "version"], ["tool", "poetry", "version"]]

def describePaths (kind : ProjectKind) : String :=
  ", ".intercalate ((candidatePaths kind).map fun path => "[" ++ ".".intercalate path ++ "]")

/-- The text at the first candidate that has one. -/
def readVersion (doc : Item) (kind : ProjectKind) : Option String :=
  (candidatePaths kind).findSome? fun path => (doc.navigate path).bind Item.asStr

/-- The version in the text of a document, if it has one. -/
def versionInToml (crates : Crates) (content : String) (kind : ProjectKind) : Option String :=
  match crates.parse content with
  | .ok doc => readVersion doc kind
  | .error _ => none

/-- The item that keys lead to, so that it may be written, and what becomes of the one they are
looked up in. -/
def navigateMut (crates : Crates) : List String → Item → Option Item × Item
  | [], item => (some item, item)
  | head :: rest, item =>
      match crates.getMut item head with
      | (none, item) => (none, item)
      | (some inner, item) =>
          let (found, inner) := navigateMut crates rest inner
          -- what a look-up below it did to the inner item is done to the item
          (found, item.modify [head] fun _ => inner)

/-- A document with a text for the value at the first of some keys that have one, if any does. -/
def setFirst (crates : Crates) (new : String) : List (List String) → Item → Option Item
  | [], _ => none
  | path :: paths, doc =>
      match navigateMut crates path doc with
      -- a look-up that found nothing may still have changed the document
      | (none, doc) => setFirst crates new paths doc
      | (some item, doc) =>
          match item.valueDecor with
          | none => setFirst crates new paths doc
          | some decor => some (doc.modify path fun _ => .string new decor)

/-- A document with a text for the value at the first candidate that has one, if any does. What is
around the value stays. -/
def setVersion (crates : Crates) (doc : Item) (kind : ProjectKind) (new : String) : Option Item :=
  setFirst crates new (candidatePaths kind) doc

/-! ## Files -/

/-- The directory of a project: the version files there are, with what reading them gives, and
what writing them does. -/
structure Dir where
  path : String
  file : ProjectKind → Option (Except String String)
  writes : ProjectKind → Except String Unit

def Dir.pathOf (dir : Dir) (kind : ProjectKind) : String :=
  joinPath dir.path kind.fileName

/-- Read and parse a version file. -/
def parse (crates : Crates) (dir : Dir) (kind : ProjectKind) : Except ShipError Item :=
  match dir.file kind with
  | none => .error (.read (dir.pathOf kind) "No such file or directory (os error 2)")
  | some (.error source) => .error (.read (dir.pathOf kind) source)
  | some (.ok content) =>
      match crates.parse content with
      | .error source => .error (.toml (dir.pathOf kind) source)
      | .ok doc => .ok doc

/-- The version in the file of a kind. -/
def locateIn (crates : Crates) (dir : Dir) (kind : ProjectKind) : Except ShipError VersionInfo := do
  let doc ← parse crates dir kind
  match readVersion doc kind with
  | some version => return ⟨kind, dir.pathOf kind, version⟩
  | none => .error (.noVersionField (dir.pathOf kind) (describePaths kind))

/-- The version of the first kind whose file there is. -/
def locate (crates : Crates) (dir : Dir) : Except ShipError VersionInfo :=
  if (dir.file .cargo).isSome then locateIn crates dir .cargo
  else if (dir.file .pyProject).isSome then locateIn crates dir .pyProject
  else .error (.noVersionFile dir.path)

/-- Bump the version in place: the old and the new one, and the directory afterwards. -/
def bump (crates : Crates) (dir : Dir) (level : Bump) :
    Except ShipError ((String × String) × Dir) := do
  let info ← locate crates dir
  let new ← nextVersion crates info.version level
  let doc ← parse crates dir info.kind
  match setVersion crates doc info.kind new with
  | none => .error (.noVersionField info.path (describePaths info.kind))
  | some doc =>
      match dir.writes info.kind with
      | .error source => .error (.write info.path source)
      | .ok () =>
          return ((info.version, new), { dir with
            file := Function.update dir.file info.kind (some (.ok (crates.print doc))) })

/-! ## The reader and the writer -/

/-- A look-up finds what is under a key, if there is something, and changes nothing. -/
def Crates.LooksUp (crates : Crates) : Prop :=
  ∀ item key, crates.getMut item key = (item.get key, item)

/-- The candidate the version is read from. -/
def readPath (doc : Item) (kind : ProjectKind) : Option (List String) :=
  (candidatePaths kind).find? fun path => ((doc.navigate path).bind Item.asStr).isSome

/-- Of the candidates, the first with a value of any kind has a text. -/
def FirstValueIsText (doc : Item) (kind : ProjectKind) : Prop :=
  ∀ path, ((candidatePaths kind).find? fun path =>
      ((doc.navigate path).bind Item.valueDecor).isSome) = some path →
    ((doc.navigate path).bind Item.asStr).isSome

/-- One document is another with a new text at the key its version is read from: what was around
the old one is around it, and every other key keeps its item. -/
def OnlyVersionChanged (doc written : Item) (kind : ProjectKind) (new : String) : Prop :=
  ∃ path decor, readPath doc kind = some path ∧
    (doc.navigate path).bind Item.valueDecor = some decor ∧
    written = doc.modify path (fun _ => .string new decor) ∧
    ∀ other, ¬ path <+: other → ¬ other <+: path → written.navigate other = doc.navigate other

variable {crates : Crates} {dir after : Dir} {level : Bump} {info : VersionInfo}
  {doc written item : Item} {kind : ProjectKind} {version new : String} {versions : String × String}

/-- No candidate leads through another. -/
theorem candidatePaths_apart {path other : List String} (hpath : path ∈ candidatePaths kind)
    (hother : other ∈ candidatePaths kind) (hne : path ≠ other) : ¬ path <+: other := by
  have hall : ∀ path ∈ candidatePaths kind, ∀ other ∈ candidatePaths kind,
      path ≠ other → ¬ path <+: other := by
    cases kind <;> decide
  exact hall path hpath other hother hne

/-- Where there is no value, there is no text. -/
theorem asStr_of_valueDecor {path : List String}
    (h : (doc.navigate path).bind Item.valueDecor = none) :
    (doc.navigate path).bind Item.asStr = none := by
  cases hitem : doc.navigate path with
  | none => rfl
  | some item =>
      rw [hitem] at h
      cases item <;> simp_all [Item.asStr, Item.valueDecor]

/-- The version that is read is the text at the candidate it is read from. -/
theorem readVersion_eq : readVersion doc kind =
    (readPath doc kind).bind fun path => (doc.navigate path).bind Item.asStr := by
  rw [readVersion, readPath]
  induction candidatePaths kind with
  | nil => rfl
  | cons path paths ih =>
      cases htext : (doc.navigate path).bind Item.asStr with
      | none => simpa [htext] using ih
      | some text => simp [htext]

theorem navigateMut_eq (hlooks : crates.LooksUp) (path : List String) (item : Item) :
    navigateMut crates path item = (item.navigate path, item) := by
  induction path generalizing item with
  | nil => rfl
  | cons key path ih =>
      rw [navigateMut, hlooks, Item.navigate]
      cases hget : item.get key with
      | none => rfl
      | some inner =>
          dsimp only
          rw [ih, Item.modify_of_get hget]
          rfl

/-- The writer looks for the first value among some keys, and writes there. -/
theorem setFirst_eq (hlooks : crates.LooksUp) (paths : List (List String)) :
    setFirst crates new paths doc = paths.findSome? fun path =>
      ((doc.navigate path).bind Item.valueDecor).map fun decor =>
        doc.modify path fun _ => .string new decor := by
  induction paths with
  | nil => rfl
  | cons path paths ih =>
      rw [setFirst, navigateMut_eq hlooks, List.findSome?_cons]
      cases hitem : doc.navigate path with
      | none => exact ih
      | some item =>
          dsimp only [Option.bind_some]
          cases item.valueDecor with
          | none => exact ih
          | some decor => rfl

/-- What the writer does: it takes the first candidate with a value. -/
theorem setVersion_cases (hlooks : crates.LooksUp)
    (h : setVersion crates doc kind new = some written) :
    ∃ front path rest decor, candidatePaths kind = front ++ path :: rest ∧
      (∀ other ∈ front, (doc.navigate other).bind Item.valueDecor = none) ∧
      (doc.navigate path).bind Item.valueDecor = some decor ∧
      written = doc.modify path fun _ => .string new decor := by
  rw [setVersion, setFirst_eq hlooks] at h
  obtain ⟨front, path, rest, hpaths, hpath, hfront⟩ := List.findSome?_eq_some_iff.mp h
  obtain ⟨decor, hdecor, rfl⟩ := Option.map_eq_some_iff.mp hpath
  refine ⟨front, path, rest, decor, hpaths, fun other hother => ?_, hdecor, rfl⟩
  simpa using hfront other hother

/-- Afterwards the new version is read, wherever it was written. -/
theorem readVersion_setVersion (hlooks : crates.LooksUp)
    (h : setVersion crates doc kind new = some written) :
    readVersion written kind = some new := by
  obtain ⟨front, path, rest, decor, hpaths, hfront, hdecor, rfl⟩ := setVersion_cases hlooks h
  refine List.findSome?_eq_some_iff.mpr ⟨front, path, rest, hpaths, ?_, fun other hother => ?_⟩
  · obtain ⟨item, hitem, -⟩ := Option.bind_eq_some_iff.mp hdecor
    rw [Item.navigate_modify_self, hitem]
    rfl
  · have hmem : other ∈ candidatePaths kind := by simp [hpaths, hother]
    have hmem' : path ∈ candidatePaths kind := by simp [hpaths]
    have hne : other ≠ path := by
      rintro rfl
      simp [hfront other hother] at hdecor
    rw [Item.navigate_modify_other (candidatePaths_apart hmem' hmem hne.symm)
      (candidatePaths_apart hmem hmem' hne)]
    exact asStr_of_valueDecor (hfront other hother)

/-- The writer changes only the version exactly if the first value is a text. -/
theorem setVersion_only_iff (hlooks : crates.LooksUp)
    (h : setVersion crates doc kind new = some written) :
    OnlyVersionChanged doc written kind new ↔ FirstValueIsText doc kind := by
  obtain ⟨front, path, rest, decor, hpaths, hfront, hdecor, rfl⟩ := setVersion_cases hlooks h
  have hvalue : ((candidatePaths kind).find? fun path =>
      ((doc.navigate path).bind Item.valueDecor).isSome) = some path := by
    refine List.find?_eq_some_iff_append.mpr ⟨by simp [hdecor], front, rest, hpaths, ?_⟩
    intro other hother
    simp [hfront other hother]
  constructor
  · rintro ⟨read, decor', hread, -, hwritten, -⟩ found hfound
    obtain rfl : path = found := Option.some.inj (hvalue.symm.trans hfound)
    obtain ⟨htext, -⟩ := List.find?_eq_some_iff_append.mp hread
    by_cases hsame : read = path
    · exact hsame ▸ htext
    · -- The key that is read is another: the text the writer left under its own was there before.
      have hmem : read ∈ candidatePaths kind := List.mem_of_find?_eq_some hread
      have hmem' : path ∈ candidatePaths kind := by simp [hpaths]
      have hkept := @Item.navigate_modify_other (fun _ => .string new decor') doc read path
        (candidatePaths_apart hmem hmem' hsame) (candidatePaths_apart hmem' hmem (Ne.symm hsame))
      obtain ⟨item, hitem, -⟩ := Option.bind_eq_some_iff.mp hdecor
      rw [← hkept, ← hwritten, Item.navigate_modify_self, hitem]
      rfl
  · intro htext
    have hread : readPath doc kind = some path := by
      refine List.find?_eq_some_iff_append.mpr ⟨htext path hvalue, front, rest, hpaths, ?_⟩
      intro other hother
      simp [asStr_of_valueDecor (hfront other hother)]
    refine ⟨path, decor, hread, hdecor, rfl, fun other hother hother' => ?_⟩
    exact Item.navigate_modify_other hother hother'

/-! ## Bumps -/

/-- What a bump that succeeds found and wrote. -/
theorem bump_cases (h : bump crates dir level = .ok (versions, after)) :
    ∃ info new doc written, locate crates dir = .ok info ∧
      nextVersion crates info.version level = .ok new ∧ parse crates dir info.kind = .ok doc ∧
      setVersion crates doc info.kind new = some written ∧ versions = (info.version, new) ∧
      after = { dir with
        file := Function.update dir.file info.kind (some (.ok (crates.print written))) } := by
  unfold bump at h
  cases hlocate : locate crates dir with
  | error e => simp [hlocate, bind, Except.bind] at h
  | ok info =>
  cases hnext : nextVersion crates info.version level with
  | error e => simp [hlocate, hnext, bind, Except.bind] at h
  | ok new =>
  cases hparse : parse crates dir info.kind with
  | error e => simp [hlocate, hnext, hparse, bind, Except.bind] at h
  | ok doc =>
  cases hset : setVersion crates doc info.kind new with
  | none => simp [hlocate, hnext, hparse, hset, bind, Except.bind] at h
  | some written =>
  cases hwrite : dir.writes info.kind with
  | error e => simp [hlocate, hnext, hparse, hset, hwrite, bind, Except.bind] at h
  | ok done =>
      simp only [hlocate, hnext, hparse, hset, hwrite, bind, Except.bind, pure, Except.pure,
        Except.ok.injEq, Prod.mk.injEq] at h
      exact ⟨info, new, doc, written, rfl, hnext, hparse, hset, h.1.symm, h.2.symm⟩

/-- A bump that succeeds writes the version after the one that was found, and what it wrote reads
as that. It changes nothing else in the document exactly if the first candidate with a value has a
text. -/
theorem bump_exact_iff (hlooks : crates.LooksUp) (hlocate : locate crates dir = .ok info)
    (hparse : parse crates dir info.kind = .ok doc)
    (hnext : nextVersion crates info.version level = .ok new)
    (hlossless : ∀ written, setVersion crates doc info.kind new = some written →
      crates.parse (crates.print written) = .ok written)
    (h : bump crates dir level = .ok (versions, after)) :
    (versions = (info.version, new) ∧ ∃ content written,
      after = { dir with file := Function.update dir.file info.kind (some (.ok content)) } ∧
      crates.parse content = .ok written ∧ versionInToml crates content info.kind = some new ∧
      OnlyVersionChanged doc written info.kind new) ↔ FirstValueIsText doc info.kind := by
  obtain ⟨info', new', doc', written, hlocate', hnext', hparse', hset, hversions, hafter⟩ :=
    bump_cases h
  obtain rfl : info = info' := Except.ok.inj (hlocate.symm.trans hlocate')
  obtain rfl : doc = doc' := Except.ok.inj (hparse.symm.trans hparse')
  obtain rfl : new = new' := Except.ok.inj (hnext.symm.trans hnext')
  have hwritten := hlossless written hset
  constructor
  · rintro ⟨-, content, written', hafter', hcontent, -, honly⟩
    have hfile := congrArg (fun dir => dir.file info.kind) (hafter.symm.trans hafter')
    simp only [Function.update_self, Option.some.injEq, Except.ok.injEq] at hfile
    rw [← hfile, hwritten, Except.ok.injEq] at hcontent
    subst hcontent
    exact (setVersion_only_iff hlooks hset).mp honly
  · intro htext
    refine ⟨hversions, crates.print written, written, hafter, hwritten, ?_,
      (setVersion_only_iff hlooks hset).mpr htext⟩
    rw [versionInToml, hwritten]
    exact readVersion_setVersion hlooks hset

/-! ## A member that inherits its version -/

/-- Parsing and printing of two documents, told apart by the text at a key, and one version. -/
def twoDocuments (old new : String × Item) (path : List String) (current : String)
    (version : Version) : Crates where
  parse content := if content = old.1 then .ok old.2 else
    if content = new.1 then .ok new.2 else .error "invalid basic string"
  print doc := if (doc.navigate path).bind Item.asStr = (new.2.navigate path).bind Item.asStr
    then new.1 else old.1
  getMut item key := (item.get key, item)
  semver text := if text = current then .ok version else .error "unexpected end of input"

/-- A directory with a `Cargo.toml` that can be written. -/
def cargoDir (content : String) : Dir where
  path := "/srv/app"
  file := Function.update (fun _ => none) .cargo (some (.ok content))
  writes := fun _ => .ok ()

/-- Writing its `Cargo.toml` gives the directory with the new one. -/
theorem cargoDir_write (content content' : String) :
    { cargoDir content with
      file := Function.update (cargoDir content).file .cargo (some (.ok content')) } =
    cargoDir content' := by
  simp [cargoDir]

/-- A package with its version, as a text and as a document. -/
def package (version : String) : String × Item :=
  ("[package]\nname = \"app\"\nversion = \"" ++ version ++ "\" # current\n",
    .table [("package", .table [("name", .string "app" ⟨" ", ""⟩),
      ("version", .string version ⟨" ", " # current"⟩)])])

/-- A package beside the version of its workspace, with the value of its own. -/
def member (text : String) (version : Item) : String × Item :=
  ("[workspace.package]\nversion = \"1.2.3\"\n\n[package]\nname = \"app\"\nversion = " ++
      text ++ "\n",
    .table [("workspace", .table [("package", .table [("version", .string "1.2.3" ⟨" ", ""⟩)])]),
      ("package", .table [("name", .string "app" ⟨" ", ""⟩), ("version", version)])])

/-- A package that takes its version from its workspace. -/
def inheriting : String × Item :=
  member "\x7b workspace = true \x7d"
    (.inline [("workspace", .literal "true" ⟨" ", " "⟩)] ⟨" ", ""⟩)

/-- What parses and prints that package before and after a bump. -/
def inheritingCrates : Crates :=
  twoDocuments inheriting (member "\"1.2.4\"" (.string "1.2.4" ⟨" ", ""⟩)) ["package", "version"]
    "1.2.3" ⟨1, 2, 3⟩

/-- The version that is found is its workspace's, the one that is bumped its own: the package does
not inherit any more, and the workspace's version is as it was. -/
theorem inherited_version_overwritten : ∃ after content written,
    locate inheritingCrates (cargoDir inheriting.1) =
      .ok ⟨.cargo, "/srv/app/Cargo.toml", "1.2.3"⟩ ∧
    bump inheritingCrates (cargoDir inheriting.1) .patch = .ok (("1.2.3", "1.2.4"), after) ∧
    after.file .cargo = some (.ok content) ∧ inheritingCrates.parse content = .ok written ∧
    (written.navigate ["workspace", "package", "version"]).bind Item.asStr = some "1.2.3" ∧
    (written.navigate ["package", "version"]).bind Item.asStr = some "1.2.4" ∧
    ¬ OnlyVersionChanged inheriting.2 written .cargo "1.2.4" := by
  refine ⟨_, _, _, rfl, rfl, rfl, rfl, rfl, rfl, ?_⟩
  rintro ⟨path, decor, hread, -, hwritten, -⟩
  obtain rfl : ["workspace", "package", "version"] = path := Option.some.inj hread
  have hkept : true = false := congrArg (fun doc =>
    ((Item.navigate ["package", "version"] doc).bind Item.asStr).isSome) hwritten
  exact absurd hkept (by decide)

/-- What parses and prints the package before and after its bump. -/
def packageCrates : Crates :=
  twoDocuments (package "0.1.5") (package "0.1.6") ["package", "version"] "0.1.5" ⟨0, 1, 5⟩

/-- The version of a package is bumped under its own key. -/
theorem bump_exact_package : ∃ content written,
    cargoDir (package "0.1.6").1 = { cargoDir (package "0.1.5").1 with
      file := Function.update (cargoDir (package "0.1.5").1).file .cargo (some (.ok content)) } ∧
    packageCrates.parse content = .ok written ∧
    versionInToml packageCrates content .cargo = some "0.1.6" ∧
    OnlyVersionChanged (package "0.1.5").2 written .cargo "0.1.6" := by
  have hlocate : locate packageCrates (cargoDir (package "0.1.5").1) =
      .ok ⟨.cargo, "/srv/app/Cargo.toml", "0.1.5"⟩ := by rfl
  have hparse : parse packageCrates (cargoDir (package "0.1.5").1) .cargo =
      .ok (package "0.1.5").2 := by rfl
  have hnext : nextVersion packageCrates "0.1.5" .patch = .ok "0.1.6" := by rfl
  have hset : setVersion packageCrates (package "0.1.5").2 .cargo "0.1.6" =
      some (package "0.1.6").2 := by rfl
  have hlossless : ∀ written,
      setVersion packageCrates (package "0.1.5").2 .cargo "0.1.6" = some written →
      packageCrates.parse (packageCrates.print written) = .ok written := by
    intro written hwritten
    obtain rfl : (package "0.1.6").2 = written := Option.some.inj (hset.symm.trans hwritten)
    rfl
  have hbump : bump packageCrates (cargoDir (package "0.1.5").1) .patch =
      .ok (("0.1.5", "0.1.6"), cargoDir (package "0.1.6").1) := by
    rw [← cargoDir_write (package "0.1.5").1 (package "0.1.6").1]
    rfl
  have htext : FirstValueIsText (package "0.1.5").2 .cargo := by
    intro path hpath
    obtain rfl : ["package", "version"] = path := Option.some.inj hpath
    rfl
  exact ((bump_exact_iff (fun _ _ => rfl) hlocate hparse hnext hlossless hbump).mpr htext).2

end Fraisier.Ship
