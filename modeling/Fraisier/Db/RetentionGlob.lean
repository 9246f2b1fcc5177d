import Fraisier.Data.Glob
import Fraisier.Db.Retention

/-!
# Which archives a pattern selects

`matches` remembers its last star only. It decides what a pattern describes all the same, over
the bytes of the pattern and of the name, so that a directory's corpus is what the pattern
describes. Read `matches_iff` first.
-/

namespace Fraisier.Db

open Fraisier.Data

/-- What a pattern of bytes describes: `*` is any run of bytes, `?` any one byte. -/
def Describes (pattern name : List UInt8) : Prop :=
  Glob '*'.toUInt8 '?'.toUInt8 pattern name

theorem star_ne_one : '*'.toUInt8 ≠ '?'.toUInt8 := by
  decide

/-- Where the last star was: what followed it has no star and took as much as it has. -/
def Matching.Follows (m : Matching) : Prop :=
  ∀ rest left, m.star = some (rest, left) → ∃ front taken,
    rest = front ++ m.pattern ∧ left = taken ++ m.name ∧ taken.length = front.length ∧
      '*'.toUInt8 ∉ front

/-- What is left to be tried: the rest of the pattern on the rest of the name, or the last star
with one more byte. -/
def Matching.Describes (m : Matching) : Prop :=
  Db.Describes m.pattern m.name ∨ ∃ rest byte left, m.star = some (rest, byte :: left) ∧
    Db.Describes ('*'.toUInt8 :: rest) left

theorem Matching.Follows.none {pattern name : List UInt8} :
    (Matching.mk pattern name none).Follows := by
  intro rest left h
  cases h

theorem Matching.Follows.star {rest name : List UInt8} :
    (Matching.mk rest name (some (rest, name))).Follows := by
  rintro _ _ ⟨⟩
  exact ⟨[], [], rfl, rfl, rfl, by simp⟩

/-- The last star is what it was where a byte of the pattern takes a byte of the name. -/
theorem Matching.Follows.step {first byte : UInt8} {rest name : List UInt8}
    {star : Option (List UInt8 × List UInt8)} (hfirst : first ≠ '*'.toUInt8)
    (h : (Matching.mk (first :: rest) (byte :: name) star).Follows) :
    (Matching.mk rest name star).Follows := by
  intro rest' left hstar
  obtain ⟨front, taken, hrest, hleft, hlength, hfront⟩ := h rest' left hstar
  refine ⟨front ++ [first], taken ++ [byte], ?_, ?_, ?_, ?_⟩
  · simp [hrest]
  · simp [hleft]
  · simp [hlength]
  · simp [hfront, Ne.symm hfirst]

/-- At the end of the name only the rest of the pattern is left to be tried. -/
theorem Matching.describes_nil {pattern : List UInt8} {star : Option (List UInt8 × List UInt8)}
    (h : (Matching.mk pattern [] star).Follows) :
    (Matching.mk pattern [] star).Describes ↔ pattern.all (· == '*'.toUInt8) = true := by
  rw [List.all_eq_true]
  simp only [beq_iff_eq]
  constructor
  · rintro (hpattern | ⟨rest, byte, left, hstar, hdescribes⟩)
    · exact Glob.iff_of_nil.mp hpattern
    · obtain ⟨front, taken, rfl, hleft, hlength, hfront⟩ := h rest _ hstar
      refine absurd hdescribes (Glob.not_star_of_append star_ne_one hfront hlength ?_)
      rw [List.append_nil] at hleft
      rw [← hleft]
      exact Nat.lt_succ_self _
  · exact fun hall => .inl (Glob.iff_of_nil.mpr hall)

/-- Behind a star all that it may take is left to be tried. -/
theorem Matching.describes_restart {rest name : List UInt8} :
    (Matching.mk rest name (some (rest, name))).Describes ↔
      Db.Describes ('*'.toUInt8 :: rest) name := by
  cases name with
  | nil =>
      rw [Db.Describes, Glob.iff_of_nil]
      constructor
      · rintro (hrest | ⟨_, _, _, hstar, -⟩)
        · exact List.forall_mem_cons.mpr ⟨rfl, Glob.iff_of_nil.mp hrest⟩
        · cases hstar
      · exact fun hall => .inl (Glob.iff_of_nil.mpr (List.forall_mem_cons.mp hall).2)
  | cons byte name =>
      rw [Db.Describes, Glob.star_cons_iff star_ne_one]
      refine or_congr Iff.rfl ?_
      constructor
      · rintro ⟨_, _, _, ⟨⟩, hdescribes⟩
        exact hdescribes
      · exact fun hdescribes => ⟨rest, byte, name, rfl, hdescribes⟩

/-- At a star the earlier one is given up. -/
theorem Matching.describes_star {rest name : List UInt8}
    {star : Option (List UInt8 × List UInt8)}
    (h : (Matching.mk ('*'.toUInt8 :: rest) name star).Follows) :
    (Matching.mk ('*'.toUInt8 :: rest) name star).Describes ↔
      (Matching.mk rest name (some (rest, name))).Describes := by
  rw [describes_restart]
  constructor
  · rintro (hpattern | ⟨rest', byte, left, hstar, hdescribes⟩)
    · exact hpattern
    · obtain ⟨front, taken, rfl, hleft, hlength, hfront⟩ := h rest' _ hstar
      refine Glob.star_of_append star_ne_one hfront hlength ?_ hdescribes
      rw [← hleft]
      exact List.suffix_cons byte left
  · exact .inl

/-- Where the pattern fails, the last star takes one more byte. -/
theorem Matching.describes_backtrack {pattern name : List UInt8} {byte : UInt8}
    {rest left : List UInt8} (hfails : ¬Db.Describes pattern (byte :: name))
    (h : (Matching.mk pattern (byte :: name) (some (rest, left))).Follows) :
    (Matching.mk pattern (byte :: name) (some (rest, left))).Describes ↔
      (Matching.mk rest left.tail (some (rest, left.tail))).Describes := by
  rw [describes_restart]
  obtain ⟨front, taken, -, hleft, -, -⟩ := h rest left rfl
  obtain ⟨first, left', rfl⟩ : ∃ first left', left = first :: left' := by
    refine List.exists_cons_of_ne_nil ?_
    rw [hleft]
    exact List.append_ne_nil_of_right_ne_nil taken (List.cons_ne_nil byte name)
  constructor
  · rintro (hpattern | ⟨_, _, _, ⟨⟩, hdescribes⟩)
    · exact absurd hpattern hfails
    · exact hdescribes
  · exact fun hdescribes => .inr ⟨rest, first, left', rfl, hdescribes⟩

/-- Where the pattern fails and there was no star, nothing is left to be tried. -/
theorem Matching.not_describes_of_none {pattern name : List UInt8}
    (hfails : ¬Db.Describes pattern name) : ¬(Matching.mk pattern name none).Describes := by
  rintro (hpattern | ⟨_, _, _, hstar, -⟩)
  · exact hfails hpattern
  · cases hstar

/-- A byte of the pattern that takes a byte of the name leaves to be tried what was left. -/
theorem Matching.describes_step {first byte : UInt8} {rest name : List UInt8}
    {star : Option (List UInt8 × List UInt8)} (hfirst : first ≠ '*'.toUInt8)
    (htakes : first = '?'.toUInt8 ∨ first = byte) :
    (Matching.mk (first :: rest) (byte :: name) star).Describes ↔
      (Matching.mk rest name star).Describes := by
  refine or_congr ?_ Iff.rfl
  rw [Db.Describes, Glob.cons_cons_iff hfirst]
  exact and_iff_right htakes

/-- Going back to the last star tries it with one more byte, and without a star nothing. -/
theorem matchFrom_backtrack {fuel : Nat} {pattern name : List UInt8} {byte : UInt8}
    {star : Option (List UInt8 × List UInt8)} {found : Bool}
    (h : (match star with
      | none => some false
      | some (rest, left) => matchFrom fuel ⟨rest, left.tail, some (rest, left.tail)⟩) = some found)
    (ih : ∀ m : Matching, m.Follows → matchFrom fuel m = some found →
      (found = true ↔ m.Describes))
    (hfollows : (Matching.mk pattern (byte :: name) star).Follows)
    (hfails : ¬Db.Describes pattern (byte :: name)) :
    found = true ↔ (Matching.mk pattern (byte :: name) star).Describes := by
  cases star with
  | none =>
      cases h
      exact iff_of_false (by simp) (Matching.not_describes_of_none hfails)
  | some last =>
      rw [Matching.describes_backtrack hfails hfollows]
      exact ih _ .star h

/-- The matcher finds out whether anything that is left to be tried succeeds. -/
theorem matchFrom_iff {fuel : Nat} {m : Matching} {found : Bool} (hfollows : m.Follows)
    (h : matchFrom fuel m = some found) : found = true ↔ m.Describes := by
  induction fuel generalizing m with
  | zero => cases h
  | succ fuel ih =>
      obtain ⟨pattern, name, star⟩ := m
      cases name with
      | nil =>
          rw [matchFrom] at h
          rw [Matching.describes_nil hfollows, Option.some.inj h]
      | cons byte name =>
          rw [matchFrom.eq_def] at h
          cases pattern with
          | nil =>
              refine matchFrom_backtrack h (fun _ => ih) hfollows fun hnil => ?_
              cases Glob.nil_iff.mp hnil
          | cons first rest =>
              simp only at h
              split at h
              · rename_i hstar
                obtain rfl := beq_iff_eq.mp hstar
                rw [Matching.describes_star hfollows]
                exact ih .star h
              · rename_i hfirst
                have hfirst : first ≠ '*'.toUInt8 := fun heq => hfirst (beq_iff_eq.mpr heq)
                split at h
                · rename_i htakes
                  have htakes : first = '?'.toUInt8 ∨ first = byte := by
                    simpa using htakes
                  rw [Matching.describes_step hfirst htakes]
                  exact ih (hfollows.step hfirst) h
                · rename_i htakes
                  refine matchFrom_backtrack h (fun _ => ih) hfollows fun hdescribes => htakes ?_
                  simpa using ((Glob.cons_cons_iff hfirst).mp hdescribes).1

/-- A name matches a pattern where its bytes are what the pattern describes. -/
theorem matches_eq_true_iff (pattern name : String) :
    «matches» pattern name = true ↔ Describes (bytes pattern) (bytes name) := by
  obtain ⟨found, hfound⟩ := Option.isSome_iff_exists.mp
    (matchFrom_matchSteps (bytes pattern) (bytes name))
  rw [«matches», hfound, Option.getD_some, matchFrom_iff .none hfound]
  refine or_iff_left ?_
  rintro ⟨_, _, _, hstar, -⟩
  cases hstar

/-! ## The corpus of a directory -/

/-- A directory holds a file under a key: a plain one, or a link to one that is below it. -/
def Disk.HoldsFile (d : Disk) (root : List String) (key : Key) : Prop :=
  key.dir = root ∧ ∃ node, d.node key = some node ∧
    (node.isFile = true ∨ node.isLink = true ∧
      (d.canonicalize key).any (Disk.under root) = true ∧ d.isFile key = true)

theorem Disk.isCandidate_iff {d : Disk} {root : List String} {pattern : String} {key : Key}
    {node : Node Key Int} :
    d.isCandidate root pattern key node = true ↔
      (key.dir = root ∧ (node.isFile = true ∨ node.isLink = true ∧
        (d.canonicalize key).any (Disk.under root) = true ∧ d.isFile key = true)) ∧
      key.isHidden = false ∧ Describes (bytes pattern) (bytes key.name) := by
  unfold isCandidate
  rw [← matches_eq_true_iff]
  cases node with
  | file time => simp [Node.isFile, and_assoc]
  | other => simp [Node.isFile, Node.isLink]
  | link target =>
      simp only [Node.isFile, Node.isLink, Bool.and_eq_true, beq_iff_eq, Bool.not_eq_true']
      tauto

/-- The archives of a directory are its files whose names a pattern describes, the hidden ones
left out. -/
theorem Disk.mem_archives_iff {d : Disk} {root : List String} {pattern : String} {key : Key} :
    key ∈ d.archives root pattern ↔
      d.HoldsFile root key ∧ key.isHidden = false ∧
        Describes (bytes pattern) (bytes key.name) := by
  rw [mem_archives]
  constructor
  · rintro ⟨node, hnode, hcandidate⟩
    obtain ⟨⟨hdir, hfile⟩, hrest⟩ := isCandidate_iff.mp hcandidate
    exact ⟨⟨hdir, node, hnode, hfile⟩, hrest⟩
  · rintro ⟨⟨hdir, node, hnode, hfile⟩, hrest⟩
    exact ⟨node, hnode, isCandidate_iff.mpr ⟨⟨hdir, hfile⟩, hrest⟩⟩

/-- A corpus is the archives of the directory that a path leads to. -/
theorem Disk.exists_of_corpus {d : Disk} {unreadable : List String → Option String}
    {dir : List String} {pattern : String} {corpus : Corpus}
    (h : d.corpus unreadable dir pattern = .ok corpus) :
    ∃ root, d.dirs dir = some root ∧
      corpus.candidates.map Candidate.path = d.archives root pattern := by
  unfold Disk.corpus at h
  cases hroot : d.dirs dir with
  | none =>
      rw [hroot] at h
      cases h
  | some root =>
      rw [hroot] at h
      simp only at h
      split at h
      · cases h
      · cases h
        refine ⟨root, rfl, ?_⟩
        rw [archives, List.map_map]
        rfl

/-- The matcher comes to an end and decides what a pattern describes over the bytes of a name,
and a corpus holds exactly the files of its directory that its pattern describes and that are
not hidden. -/
theorem matches_iff :
    (∀ pattern name : String,
      (matchFrom (matchSteps (bytes pattern) (bytes name))
        ⟨bytes pattern, bytes name, none⟩).isSome = true ∧
      («matches» pattern name = true ↔ Describes (bytes pattern) (bytes name))) ∧
    ∀ (d : Disk) (unreadable : List String → Option String) (dir : List String)
      (pattern : String) (corpus : Corpus), d.corpus unreadable dir pattern = .ok corpus →
      ∃ root, d.dirs dir = some root ∧ ∀ key, key ∈ corpus.candidates.map Candidate.path ↔
        d.HoldsFile root key ∧ key.isHidden = false ∧
          Describes (bytes pattern) (bytes key.name) := by
  refine ⟨fun pattern name => ⟨matchFrom_matchSteps _ _, matches_eq_true_iff pattern name⟩, ?_⟩
  intro d unreadable dir pattern corpus h
  obtain ⟨root, hroot, hcandidates⟩ := Disk.exists_of_corpus h
  refine ⟨root, hroot, fun key => ?_⟩
  rw [hcandidates, Disk.mem_archives_iff]

/-- A directory with an archive and one that is still being written. -/
def halfWritten : Disk where
  dirs := some
  entries := [(⟨["backups"], "a.pgdump"⟩, .file 1), (⟨["backups"], ".b.partial"⟩, .file 2)]
  nodup := by decide

theorem matches_iff_halfWritten :
    ∃ root, halfWritten.dirs ["backups"] = some root ∧
      ∀ key, key ∈ [(⟨["backups"], "a.pgdump"⟩ : Key)] ↔
        halfWritten.HoldsFile root key ∧ key.isHidden = false ∧
          Describes (bytes "*") (bytes key.name) :=
  matches_iff.2 halfWritten (fun _ => none) ["backups"] "*"
    ⟨[⟨⟨["backups"], "a.pgdump"⟩, 1⟩], []⟩ rfl

/-- A hidden file is not in the corpus of a pattern that describes it. -/
theorem corpus_without_hidden :
    ¬∀ (d : Disk) (unreadable : List String → Option String) (dir : List String)
      (pattern : String) (corpus : Corpus), d.corpus unreadable dir pattern = .ok corpus →
      ∃ root, d.dirs dir = some root ∧ ∀ key, key ∈ corpus.candidates.map Candidate.path ↔
        d.HoldsFile root key ∧ Describes (bytes pattern) (bytes key.name) := by
  intro h
  obtain ⟨root, hroot, hkeys⟩ := h halfWritten (fun _ => none) ["backups"] "*"
    ⟨[⟨⟨["backups"], "a.pgdump"⟩, 1⟩], []⟩ rfl
  cases hroot
  have hdescribes : Describes (bytes "*") (bytes ".b.partial") := by
    have hstar : bytes "*" = ['*'.toUInt8] := by decide
    rw [hstar, ← List.append_nil (bytes ".b.partial")]
    exact Glob.nil.star _
  have hmem := (hkeys ⟨["backups"], ".b.partial"⟩).mpr
    ⟨⟨rfl, .file 2, by decide, .inl rfl⟩, hdescribes⟩
  simp at hmem

end Fraisier.Db
