import Fraisier.Ship.Clones

/-!
# Histories whose versions rise

A bump writes one version file, and what is located there afterwards is the next version:
`bump_dir_cases`. Along a rising history no version is below one that is older, and a release is
above all of them: `Rising.core_lt`.
-/

namespace Fraisier.Ship

open Fraisier.Data Fraisier.Effect

/-- What is relied on of the crates: looking a key up changes nothing, a document that was written
reads as itself, and so does a version whose components fit in their types, which those of every
version do. -/
structure Crates.Lawful (crates : Crates) : Prop where
  looksUp : crates.LooksUp
  reads : ∀ content doc kind new written, crates.parse content = .ok doc →
    setVersion crates doc kind new = some written →
      crates.parse (crates.print written) = .ok written
  semver : ∀ v : Version, v.major < 2 ^ 64 → v.minor < 2 ^ 64 → v.patch < 2 ^ 64 →
    crates.semver v.text = .ok v
  fits : ∀ text v, crates.semver text = .ok v →
    v.major < 2 ^ 64 ∧ v.minor < 2 ^ 64 ∧ v.patch < 2 ^ 64

/-! ## Version files -/

section Files

variable {crates : Crates} {files before : Files} {kind : ProjectKind} {info : VersionInfo}
  {path name : String} {level : Bump}

@[simp] theorem Files.get_put (content : Option String) : (files.put kind content).get kind =
    content := by
  cases kind <;> rfl

@[simp] theorem Files.put_put (first second : Option String) :
    (files.put kind first).put kind second = files.put kind second := by
  cases kind <;> rfl

@[simp] theorem Files.put_get : files.put kind (files.get kind) = files := by
  cases kind <;> rfl

@[simp] theorem Files.kindOf_fileName : Files.kindOf kind.fileName = some kind := by
  cases kind <;> decide

/-- The file of a kind is taken from others. -/
theorem Files.take_fileName (others : Files) :
    files.take kind.fileName others = files.put kind (others.get kind) := by
  rw [Files.take, Files.kindOf_fileName]

/-- The files of a directory in which one was written. -/
theorem Files.ofDir_update (content : String) :
    Files.ofDir { files.dir path with
      file := Function.update (files.dir path).file kind (some (.ok content)) } =
    files.put kind (some content) := by
  obtain ⟨cargo, pyProject⟩ := files
  cases kind <;> cases cargo <;> cases pyProject <;> rfl

/-- The kind a version is located under: `Cargo.toml` goes first. -/
theorem locate_dir_cases (h : locate crates (files.dir path) = .ok info) :
    ∃ content doc, files.get info.kind = some content ∧ crates.parse content = .ok doc ∧
      readVersion doc info.kind = some info.version ∧
      (info.kind = .pyProject → files.cargo = none) := by
  have hin : ∀ kind, locateIn crates (files.dir path) kind = .ok info →
      info.kind = kind ∧ ∃ content doc, files.get kind = some content ∧
        crates.parse content = .ok doc ∧ readVersion doc kind = some info.version := by
    intro kind h
    simp only [locateIn, parse, Files.dir] at h
    cases hfile : files.get kind with
    | none => simp [hfile, bind, Except.bind] at h
    | some content =>
        cases hparse : crates.parse content with
        | error source => simp [hfile, hparse, bind, Except.bind] at h
        | ok doc =>
            cases hread : readVersion doc kind with
            | none => simp [hfile, hparse, hread, bind, Except.bind] at h
            | some version =>
                simp only [hfile, hparse, hread, Option.map_some, bind, Except.bind, pure,
                  Except.pure, Except.ok.injEq] at h
                subst h
                exact ⟨rfl, content, doc, rfl, hparse, hread⟩
  unfold locate at h
  split at h
  · obtain ⟨hkind, content, doc, hfile, hparse, hread⟩ := hin .cargo h
    exact ⟨content, doc, hkind ▸ hfile, hparse, hkind ▸ hread, by simp [hkind]⟩
  · next hcargo =>
    split at h
    · obtain ⟨hkind, content, doc, hfile, hparse, hread⟩ := hin .pyProject h
      refine ⟨content, doc, hkind ▸ hfile, hparse, hkind ▸ hread, fun _ => ?_⟩
      simpa [Files.dir, Files.get] using hcargo
    · cases h

/-- The version that is located is the one of the file of its kind. -/
theorem Files.version_of_get {content version : String} {doc : Toml.Item}
    (hfile : files.get kind = some content) (hparse : crates.parse content = .ok doc)
    (hread : readVersion doc kind = some version)
    (hfirst : kind = .pyProject → files.cargo = none) :
    files.version crates = some version := by
  cases kind with
  | cargo =>
      replace hfile : files.cargo = some content := hfile
      simp [Files.version, locate, locateIn, parse, Files.dir, Files.get, hfile, hparse, hread,
        bind, Except.bind, pure, Except.pure]
  | pyProject =>
      have hcargo := hfirst rfl
      replace hfile : files.pyProject = some content := hfile
      simp [Files.version, locate, locateIn, parse, Files.dir, Files.get, hfile, hcargo, hparse,
        hread, bind, Except.bind, pure, Except.pure]

theorem Files.version_of_locate (h : locate crates (files.dir path) = .ok info) :
    files.version crates = some info.version := by
  obtain ⟨content, doc, hfile, hparse, hread, hfirst⟩ := locate_dir_cases h
  exact Files.version_of_get hfile hparse hread hfirst

/-- A bump writes the next version to the file it was found in, and to no other. -/
theorem bump_dir_cases (hlawful : crates.Lawful)
    (hlocate : locate crates (files.dir path) = .ok info) {versions : String × String} {dir : Dir}
    (h : bump crates (files.dir path) level = .ok (versions, dir)) :
    ∃ content new, nextVersion crates info.version level = .ok new ∧
      Files.ofDir dir = files.put info.kind (some content) ∧
      (files.put info.kind (some content)).version crates = some new := by
  obtain ⟨info', new, doc, written, hlocate', hnext, hparse, hset, -, rfl⟩ := bump_cases h
  obtain rfl : info = info' := Except.ok.inj (hlocate.symm.trans hlocate')
  obtain ⟨content, doc', hfile, hparse', -, hfirst⟩ := locate_dir_cases hlocate
  have hdoc : doc = doc' := by
    simp only [parse, Files.dir, hfile, Option.map_some, hparse', Except.ok.injEq] at hparse
    exact hparse.symm
  subst hdoc
  refine ⟨crates.print written, new, hnext, Files.ofDir_update _, ?_⟩
  refine Files.version_of_get (Files.get_put _)
    (hlawful.reads content doc info.kind new written hparse' hset)
    (readVersion_setVersion hlawful.looksUp hset) ?_
  intro hkind
  rw [hkind]
  exact hfirst hkind

end Files

/-! ## Rising histories -/

section Order

variable {crates : Crates} {base history : List Commit}

/-- No component of a version is the last of its type. -/
def Version.HasRoom (version : Version) : Prop :=
  version.major + 1 < 2 ^ 64 ∧ version.minor + 1 < 2 ^ 64 ∧ version.patch + 1 < 2 ^ 64

theorem increment_of_room {n : Nat} (h : n + 1 < 2 ^ 64) : increment n = n + 1 :=
  Nat.mod_eq_of_lt h

theorem increment_lt (n : Nat) : increment n < 2 ^ 64 :=
  Nat.mod_lt _ (by decide)

/-- A bump leads to a higher version. -/
theorem Commit.Bumps.core (hlawful : crates.Lawful) {commit : Commit} {before : Files}
    (h : commit.Bumps crates before) : ∃ v v', before.core crates = some v ∧
      commit.files.core crates = some v' ∧ (v.HasRoom → v.rank < v'.rank) := by
  obtain ⟨level, old, new, hold, hnext, hnew⟩ := h
  cases hsemver : crates.semver old with
  | error source => simp [nextVersion, hsemver] at hnext
  | ok v =>
      obtain ⟨hmajor, hminor, hpatch⟩ := hlawful.fits old v hsemver
      simp only [nextVersion, hsemver, Except.ok.injEq] at hnext
      have hafter : ∀ v' : Version, v'.text = new → v'.major < 2 ^ 64 → v'.minor < 2 ^ 64 →
          v'.patch < 2 ^ 64 → commit.files.core crates = some v' := by
        intro v' htext hmajor' hminor' hpatch'
        simp [Files.core, hnew, ← htext, hlawful.semver v' hmajor' hminor' hpatch', Except.toOption]
      refine ⟨v, ?_⟩
      rw [Files.core, hold, Option.bind_some, hsemver]
      cases level with
      | major =>
          refine ⟨_, rfl, hafter _ hnext (increment_lt _) (Nat.two_pow_pos 64)
            (Nat.two_pow_pos 64), fun hroom => ?_⟩
          simp [Version.rank, Prod.Lex.toLex_lt_toLex, increment_of_room hroom.1]
      | minor =>
          refine ⟨_, rfl, hafter _ hnext hmajor (increment_lt _) (Nat.two_pow_pos 64),
            fun hroom => ?_⟩
          simp [Version.rank, Prod.Lex.toLex_lt_toLex, increment_of_room hroom.2.1]
      | patch =>
          refine ⟨_, rfl, hafter _ hnext hmajor hminor (increment_lt _), fun hroom => ?_⟩
          simp [Version.rank, Prod.Lex.toLex_lt_toLex, increment_of_room hroom.2.2]

/-- Every version of a history leaves room for the next one. -/
def Roomy (crates : Crates) (history : List Commit) : Prop :=
  ∀ commit ∈ history, ∀ v, commit.files.core crates = some v → v.HasRoom

theorem Rising.refl (base : List Commit) : Rising crates base base := by
  refine ⟨List.suffix_refl _, fun commit older hsuffix hbase => ?_⟩
  have hlength := hsuffix.length_le.trans hbase.length_le
  exact absurd hlength (by simp)

theorem Rising.cons {commit : Commit} (h : Rising crates base history)
    (hcommit : commit.files = tip history ∨ commit.Bumps crates (tip history)) :
    Rising crates base (commit :: history) := by
  refine ⟨h.1.trans (List.suffix_cons _ _), fun other older hsuffix hbase => ?_⟩
  obtain heq | hsuffix := List.suffix_cons_iff.mp hsuffix
  · obtain ⟨rfl, rfl⟩ := List.cons.inj heq
    exact hcommit
  · exact h.2 other older hsuffix hbase

/-- Along a rising history the versions rise. -/
theorem Rising.core_le (hlawful : crates.Lawful) {first : Commit} {older : List Commit}
    {v : Version}
    (hcore : first.files.core crates = some v) (hfirst : base <:+ older)
    (h : Rising crates base history) (hroomy : Roomy crates history)
    (hsuffix : first :: older <:+ history) :
    ∃ v', (tip history).core crates = some v' ∧ v.rank ≤ v'.rank := by
  induction history with
  | nil => simpa using hsuffix.length_le
  | cons commit history ih =>
      obtain heq | hsuffix := List.suffix_cons_iff.mp hsuffix
      · obtain ⟨rfl, rfl⟩ := List.cons.inj heq
        exact ⟨v, hcore, le_rfl⟩
      · have hbase : base <:+ history := (hfirst.trans (List.suffix_cons _ _)).trans hsuffix
        have hbelow : Rising crates base history := ⟨hbase, fun other rest hrest =>
          h.2 other rest (hrest.trans (List.suffix_cons _ _))⟩
        obtain ⟨v', hv', hle⟩ := ih hbelow
          (fun other hother => hroomy other (List.mem_cons_of_mem _ hother)) hsuffix
        obtain hkept | hbumps := h.2 commit history (List.suffix_refl _) hbase
        · exact ⟨v', by rw [← hv', ← hkept]; rfl, hle⟩
        · obtain ⟨w, w', hw, hw', hlt⟩ := hbumps.core hlawful
          obtain rfl : v' = w := Option.some.inj (hv'.symm.trans hw)
          refine ⟨w', hw', hle.trans (hlt ?_).le⟩
          -- The version below is the one of a commit of the history.
          cases history with
          | nil => simpa using hsuffix.length_le
          | cons top rest => exact hroomy top (by simp) v' hv'

/-- A release has a higher version than every commit below it. -/
theorem Rising.core_lt (hlawful : crates.Lawful) {first commit : Commit}
    {older history : List Commit} {v : Version} (hcore : first.files.core crates = some v)
    (hfirst : base <:+ older)
    (h : Rising crates base (commit :: history)) (hroomy : Roomy crates (commit :: history))
    (hbumps : commit.Bumps crates (tip history)) (hsuffix : first :: older <:+ history) :
    ∃ v', commit.files.core crates = some v' ∧ v.rank < v'.rank := by
  have hbelow : Rising crates base history :=
    ⟨(hfirst.trans (List.suffix_cons _ _)).trans hsuffix, fun other rest hrest =>
      h.2 other rest (hrest.trans (List.suffix_cons _ _))⟩
  obtain ⟨w, hw, hle⟩ := hbelow.core_le hlawful hcore hfirst
    (fun other hother => hroomy other (List.mem_cons_of_mem _ hother)) hsuffix
  obtain ⟨w', v', hw', hv', hlt⟩ := hbumps.core hlawful
  obtain rfl : w = w' := Option.some.inj (hw.symm.trans hw')
  refine ⟨v', hv', hle.trans_lt (hlt ?_)⟩
  cases history with
  | nil => simpa using hsuffix.length_le
  | cons top rest => exact hroomy top (by simp) w hw

end Order

end Fraisier.Ship
