import Fraisier.Data.Lines
import Fraisier.Db.Refresh

/-!
# Where the lines of a listing go

A listing is split for a restore in two passes, one of the app role and one of the admin. The
lines are read three times by different matchers: `withoutExtensions` drops entries by
`tocEntry`, `listedTables` looks up tables, and `splitLine` puts what is left into the lists.
The main result is `splitListing_partitions`.
-/

namespace Fraisier.Db

open Fraisier.Data

/-- An entry is written with the given words, from its kind on. -/
def Shows (line : String) (words : List String) : Prop :=
  words <+: entryWords line

instance (line : String) (words : List String) : Decidable (Shows line words) :=
  inferInstanceAs (Decidable (words <+: entryWords line))

/-- An entry that is not restored: it creates, or comments on, a listed extension, or it
creates, or is a grant or a comment of, a schema that exists. -/
def Dropped (extensions existing : List String) (line : String) : Prop :=
  (∃ name ∈ extensions,
    Shows line ["EXTENSION", "-", name] ∨ Shows line ["COMMENT", "-", "EXTENSION", name]) ∨
  ∃ name ∈ existing, Shows line ["SCHEMA", "-", name] ∨ Shows line ["ACL", "-", "SCHEMA", name] ∨
    Shows line ["COMMENT", "-", "SCHEMA", name]

/-- Where a line goes. -/
inductive Place where
  | app
  | extensionData
  | dropped
deriving DecidableEq

/-- Every line of a listing goes to one place; the lists have their lines in order, each as it
is written there. -/
structure Partitions (write : String → String) (listing : String)
    (extensions existing : List String) (lists : RestoreLists) (place : String → Place) :
    Prop where
  app : lists.app = unlines (((lines listing).filter (place · = .app)).map write)
  extensionData : lists.extensionData =
    unlines (((lines listing).filter (place · = .extensionData)).map write)
  dropped : ∀ line ∈ lines listing, place line = .dropped ↔ Dropped extensions existing line

/-! ## The places -/

/-- Where a line goes that no extension is dropped with. -/
def placeLeft (existing : List String) (tables : List (String × String)) (line : String) :
    Place :=
  match entryWords line with
  | "TABLE" :: "DATA" :: schema :: name :: _ =>
      if tables.contains (schema, name) then .app else .extensionData
  | "SCHEMA" :: "-" :: name :: _ => if name ∈ existing then .dropped else .app
  | "ACL" :: "-" :: "SCHEMA" :: name :: _ => if name ∈ existing then .dropped else .app
  | "COMMENT" :: "-" :: "SCHEMA" :: name :: _ => if name ∈ existing then .dropped else .app
  | _ => .app

/-- Whether a line creates, or comments on, one of the extensions. -/
def createsExtension (extensions : List String) (line : String) : Bool :=
  (tocEntry line ["EXTENSION", "-"]).any extensions.contains ||
    (tocEntry line ["COMMENT", "-", "EXTENSION"]).any extensions.contains

/-- Where a line of a listing goes. -/
def placeOf (listing : String) (extensions existing : List String) (line : String) : Place :=
  if createsExtension extensions line then .dropped
  else placeLeft existing (listedTables listing) line

/-- The schema a line creates, if it exists. -/
def madeSchema (existing : List String) (line : String) : Option String :=
  match entryWords line with
  | "SCHEMA" :: "-" :: name :: _ => if name ∈ existing then some name else none
  | _ => none

/-- Write a line where it goes. -/
def RestoreLists.put (lists : RestoreLists) (line : String) : Place → RestoreLists
  | .app => { lists with app := lists.app ++ line ++ "\n" }
  | .extensionData => { lists with extensionData := lists.extensionData ++ line ++ "\n" }
  | .dropped => lists

/-! ## Words -/

/-- A matcher of entries looks at the words from the kind on. -/
theorem tocEntry_eq_some_iff {line name : String} {kind : List String} (hkind : kind ≠ []) :
    tocEntry line kind = some name ↔ Shows line (kind ++ [name]) := by
  have hpositive := List.length_pos_iff.mpr hkind
  rw [tocEntry, Shows, entryWords]
  split
  · simp
  · obtain ⟨words, hwords⟩ : ∃ words, words = (splitWhitespace line).drop 3 := ⟨_, rfl⟩
    have hslice : slice 3 (3 + kind.length) (splitWhitespace line) = some kind ↔
        kind <+: words := by
      rw [slice, hwords, List.prefix_iff_eq_take]
      constructor
      · intro h
        split at h
        next hlength =>
          rw [← Option.some.inj h, List.length_drop, List.length_take, min_eq_left hlength,
            Nat.add_sub_cancel_left, List.drop_take, Nat.add_sub_cancel_left]
        · cases h
      · intro h
        have hlength := congrArg List.length h
        rw [List.length_take, List.length_drop] at hlength
        rw [if_pos (by omega), List.drop_take, Nat.add_sub_cancel_left, ← h]
    simp only [hslice, ← List.getElem?_drop, ← hwords]
    constructor
    · intro h
      split at h
      next hprefix =>
        obtain ⟨rest, rfl⟩ := hprefix
        rw [List.getElem?_append_right le_rfl, Nat.sub_self] at h
        cases rest with
        | nil => cases h
        | cons word rest =>
            cases h
            exact ⟨rest, by simp⟩
      · cases h
    · rintro ⟨rest, hrest⟩
      rw [← hrest, List.append_assoc, if_pos (List.prefix_append _ _),
        List.getElem?_append_right le_rfl, Nat.sub_self]
      rfl

theorem createsExtension_iff {extensions : List String} {line : String} :
    createsExtension extensions line = true ↔ ∃ name ∈ extensions,
      Shows line ["EXTENSION", "-", name] ∨ Shows line ["COMMENT", "-", "EXTENSION", name] := by
  have hany : ∀ kind : List String, kind ≠ [] →
      ((tocEntry line kind).any extensions.contains = true ↔
        ∃ name ∈ extensions, Shows line (kind ++ [name])) := by
    intro kind hkind
    simp only [Option.any_eq_true, tocEntry_eq_some_iff hkind, List.contains_iff_mem, and_comm]
  rw [createsExtension, Bool.or_eq_true, hany _ (by simp), hany _ (by simp), ← exists_or]
  simp only [← and_or_left, List.cons_append, List.nil_append]

theorem placeLeft_eq_dropped_iff {existing : List String} {tables : List (String × String)}
    {line : String} : placeLeft existing tables line = .dropped ↔ ∃ name ∈ existing,
      Shows line ["SCHEMA", "-", name] ∨ Shows line ["ACL", "-", "SCHEMA", name] ∨
        Shows line ["COMMENT", "-", "SCHEMA", name] := by
  simp only [Shows, placeLeft]
  generalize entryWords line = words
  split
  · split <;> simp
  · simp [eq_comm]
  · simp [eq_comm]
  · simp [eq_comm]
  next htable hmade hacl hcomment =>
    refine iff_of_false (by simp) ?_
    rintro ⟨name, -, ⟨rest, rfl⟩ | ⟨rest, rfl⟩ | ⟨rest, rfl⟩⟩
    · exact hmade name rest rfl
    · exact hacl name rest rfl
    · exact hcomment name rest rfl

/-- Where the rows of a table go. -/
theorem placeLeft_of_rows {existing : List String} {tables : List (String × String)}
    {line schema name : String} (h : Shows line ["TABLE", "DATA", schema, name]) :
    placeLeft existing tables line =
      if tables.contains (schema, name) then .app else .extensionData := by
  obtain ⟨rest, hrest⟩ := h
  rw [placeLeft, ← hrest]
  rfl

/-- Only extensions and comments are dropped with an extension. -/
theorem not_createsExtension {extensions : List String} {line kind : String} {rest : List String}
    (h : Shows line (kind :: rest)) (hextension : kind ≠ "EXTENSION")
    (hcomment : kind ≠ "COMMENT") :
    createsExtension extensions line = false := by
  rw [Bool.eq_false_iff, Ne, createsExtension_iff]
  obtain ⟨tail, htail⟩ := h
  rintro ⟨name, -, hshows | hshows⟩
  · rw [Shows, ← htail, List.cons_append, List.cons_prefix_cons] at hshows
    exact hextension hshows.1.symm
  · rw [Shows, ← htail, List.cons_append, List.cons_prefix_cons] at hshows
    exact hcomment hshows.1.symm

/-- A table of a schema other than `DATA` is listed exactly if an entry creates it. -/
theorem mem_listedTables {listing schema name : String} (hdata : schema ≠ "DATA") :
    (schema, name) ∈ listedTables listing ↔
      ∃ line ∈ lines listing, Shows line ["TABLE", schema, name] := by
  rw [listedTables, List.mem_filterMap]
  refine exists_congr fun line => and_congr_right fun _ => ?_
  rw [Shows]
  generalize entryWords line = words
  split
  next schema' name' rest =>
    by_cases hdata' : schema' = "DATA"
    · simp [hdata', hdata]
    · simp [hdata', eq_comm]
  next hother =>
    refine iff_of_false (by simp) ?_
    rintro ⟨rest, rfl⟩
    exact hother schema name rest rfl

/-! ## One line -/

@[simp] theorem entryWords_withoutReturn (line : String) :
    entryWords (withoutReturn line) = entryWords line := by
  rw [entryWords, entryWords, startsWith_withoutReturn (by decide), splitWhitespace_withoutReturn]

theorem madeSchema_eq_some_iff {existing : List String} {line name : String} :
    madeSchema existing line = some name ↔ name ∈ existing ∧ Shows line ["SCHEMA", "-", name] := by
  rw [madeSchema, Shows]
  generalize entryWords line = words
  split
  next made rest =>
    by_cases hmem : made ∈ existing
    · simp only [if_pos hmem, Option.some.injEq, List.cons_prefix_cons, List.nil_prefix, and_true,
        true_and]
      exact ⟨fun h => h ▸ ⟨hmem, rfl⟩, fun h => h.2.symm⟩
    · simp only [if_neg hmem, List.cons_prefix_cons, List.nil_prefix, and_true, true_and,
        reduceCtorEq, false_iff, not_and]
      rintro hname rfl
      exact hmem hname
  next hother =>
    refine iff_of_false (by simp) ?_
    rintro ⟨-, rest, rfl⟩
    exact hother name rest rfl

/-- A line goes to its place, and the schema it creates is remembered. -/
theorem splitLine_eq {existing : List String} {tables : List (String × String)}
    {lists : RestoreLists} {line : String} :
    splitLine existing tables lists line =
      RestoreLists.put
        { lists with madeSchemas := lists.madeSchemas ++ (madeSchema existing line).toList } line
        (placeLeft existing tables line) := by
  simp only [splitLine, placeLeft, madeSchema]
  generalize entryWords line = words
  by_cases hrows : ∃ schema name rest, words = "TABLE" :: "DATA" :: schema :: name :: rest
  · obtain ⟨schema, name, rest, rfl⟩ := hrows
    by_cases hmem : (schema, name) ∈ tables
    · simp [hmem, RestoreLists.put]
    · simp [hmem, RestoreLists.put]
  by_cases hmade : ∃ name rest, words = "SCHEMA" :: "-" :: name :: rest
  · obtain ⟨name, rest, rfl⟩ := hmade
    by_cases hmem : name ∈ existing
    · simp [hmem, RestoreLists.put]
    · simp [hmem, RestoreLists.put]
  by_cases hacl : ∃ name rest, words = "ACL" :: "-" :: "SCHEMA" :: name :: rest
  · obtain ⟨name, rest, rfl⟩ := hacl
    by_cases hmem : name ∈ existing
    · simp [hmem, RestoreLists.put]
    · simp [hmem, RestoreLists.put]
  by_cases hcomment : ∃ name rest, words = "COMMENT" :: "-" :: "SCHEMA" :: name :: rest
  · obtain ⟨name, rest, rfl⟩ := hcomment
    by_cases hmem : name ∈ existing
    · simp [hmem, RestoreLists.put]
    · simp [hmem, RestoreLists.put]
  -- No matcher takes the line.
  simp only [not_exists] at hrows hmade hacl hcomment
  simp [RestoreLists.put]

/-! ## The whole listing -/

theorem foldl_unlines (text : String) (written : List String) :
    written.foldl (fun text line => text ++ line ++ "\n") text = text ++ unlines written := by
  rw [unlines]
  induction written generalizing text with
  | nil => simp
  | cons line rest ih =>
      rw [List.foldl_cons, List.foldl_cons, ih, ih ("" ++ line ++ "\n"), ← String.append_assoc]
      simp [String.append_assoc]

theorem unlines_cons (line : String) (rest : List String) :
    unlines (line :: rest) = line ++ "\n" ++ unlines rest := by
  rw [unlines, List.foldl_cons, foldl_unlines, String.empty_append]

theorem unlines_toList (written : List String) :
    (unlines written).toList = written.flatMap fun line => line.toList ++ ['\n'] := by
  induction written with
  | nil => rfl
  | cons line rest ih =>
      rw [unlines_cons, String.toList_append, String.toList_append, ih, List.flatMap_cons]
      rfl

/-- What is written as lines is read as the same lines, but for a return at their ends. -/
theorem lines_unlines {written : List String} (h : ∀ line ∈ written, '\n' ∉ line.toList) :
    lines (unlines written) = written.map withoutReturn := by
  rw [lines, unlines_toList, linesFrom_flatMap h]

/-- The lines of a listing that are left are put where they go. -/
theorem foldl_splitLine {existing : List String} {tables : List (String × String)}
    (left : List String) (lists : RestoreLists) :
    left.foldl (splitLine existing tables) lists =
      { app := lists.app ++ unlines (left.filter (placeLeft existing tables · = .app))
        extensionData := lists.extensionData ++
          unlines (left.filter (placeLeft existing tables · = .extensionData))
        madeSchemas := lists.madeSchemas ++ left.filterMap (madeSchema existing) } := by
  induction left generalizing lists with
  | nil => simp [unlines]
  | cons line rest ih =>
      have hmade : lists.madeSchemas ++ (line :: rest).filterMap (madeSchema existing) =
          lists.madeSchemas ++ (madeSchema existing line).toList ++
            rest.filterMap (madeSchema existing) := by
        rw [List.append_assoc]
        cases hline : madeSchema existing line with
        | none => rw [List.filterMap_cons_none hline]; rfl
        | some name => rw [List.filterMap_cons_some hline]; rfl
      rw [List.foldl_cons, splitLine_eq, ih, hmade]
      cases hplace : placeLeft existing tables line with
      | app => simp [hplace, RestoreLists.put, unlines_cons, String.append_assoc]
      | extensionData => simp [hplace, RestoreLists.put, unlines_cons, String.append_assoc]
      | dropped => simp [hplace, RestoreLists.put]

@[simp] theorem placeLeft_withoutReturn (existing : List String)
    (tables : List (String × String)) (line : String) :
    placeLeft existing tables (withoutReturn line) = placeLeft existing tables line := by
  rw [placeLeft, placeLeft, entryWords_withoutReturn]

@[simp] theorem madeSchema_withoutReturn (existing : List String) (line : String) :
    madeSchema existing (withoutReturn line) = madeSchema existing line := by
  rw [madeSchema, madeSchema, entryWords_withoutReturn]

section Listing

variable {listing : String} {extensions existing : List String}

/-- The lines the extensions are dropped from, as they are read again. -/
theorem lines_withoutExtensions :
    lines (withoutExtensions listing extensions) =
      ((lines listing).filter (!createsExtension extensions ·)).map withoutReturn := by
  have hkept : withoutExtensions listing extensions =
      unlines ((lines listing).filter (!createsExtension extensions ·)) := by
    simp only [withoutExtensions, createsExtension, Bool.not_or]
  rw [hkept, lines_unlines fun line hline =>
    newline_not_mem_lines line (List.mem_of_mem_filter hline)]

/-- What is written of the lines that go to a place where no line is dropped. -/
theorem written_eq {place : Place} (hplace : place ≠ .dropped) :
    (lines (withoutExtensions listing extensions)).filter
        (placeLeft existing (listedTables listing) · = place) =
      ((lines listing).filter (placeOf listing extensions existing · = place)).map
        withoutReturn := by
  rw [lines_withoutExtensions, List.filter_map, List.filter_filter]
  refine congrArg (List.map withoutReturn) (List.filter_congr fun line _ => ?_)
  rw [Function.comp, placeLeft_withoutReturn, placeOf]
  cases createsExtension extensions line with
  | true => simp [hplace.symm]
  | false => simp

/-- A split listing, by the places of its lines. -/
theorem splitListing_eq :
    splitListing listing extensions existing =
      { app := unlines (((lines listing).filter
          (placeOf listing extensions existing · = .app)).map withoutReturn)
        extensionData := unlines (((lines listing).filter
          (placeOf listing extensions existing · = .extensionData)).map withoutReturn)
        madeSchemas := ((lines listing).filter (!createsExtension extensions ·)).filterMap
          (madeSchema existing) } := by
  have hmade : madeSchema existing ∘ withoutReturn = madeSchema existing :=
    funext fun line => madeSchema_withoutReturn existing line
  rw [splitListing, foldl_splitLine, written_eq (by decide), written_eq (by decide),
    lines_withoutExtensions, List.filterMap_map, hmade]
  simp only [String.empty_append, List.nil_append]

theorem placeOf_eq_dropped_iff {line : String} :
    placeOf listing extensions existing line = .dropped ↔ Dropped extensions existing line := by
  have hleft := @placeLeft_eq_dropped_iff existing (listedTables listing) line
  rw [placeOf, Dropped, ← createsExtension_iff, ← hleft]
  split
  next hcreates => simp [hcreates]
  next hcreates => simp [hcreates]

/-- The rows of a table go to the admin exactly if no entry creates the table. -/
theorem placeOf_rows {line schema name : String} (hdata : schema ≠ "DATA")
    (hrows : Shows line ["TABLE", "DATA", schema, name]) :
    placeOf listing extensions existing line = .extensionData ↔
      ¬ ∃ other ∈ lines listing, Shows other ["TABLE", schema, name] := by
  rw [placeOf, not_createsExtension hrows (by decide) (by decide), if_neg Bool.false_ne_true,
    placeLeft_of_rows hrows, ← mem_listedTables hdata]
  split
  next hmem => simpa using hmem
  next hmem => simpa using hmem

theorem mem_madeSchemas {schema : String} :
    schema ∈ (splitListing listing extensions existing).madeSchemas ↔
      schema ∈ existing ∧ ∃ line ∈ lines listing, Shows line ["SCHEMA", "-", schema] := by
  rw [splitListing_eq]
  simp only [List.mem_filterMap, List.mem_filter, madeSchema_eq_some_iff]
  constructor
  · rintro ⟨line, ⟨hline, -⟩, hmem, hshows⟩
    exact ⟨hmem, line, hline, hshows⟩
  · rintro ⟨hmem, line, hline, hshows⟩
    have hleft := @not_createsExtension extensions _ _ _ hshows (by decide) (by decide)
    exact ⟨line, ⟨hline, by rw [hleft]; rfl⟩, hmem, hshows⟩

end Listing

/-- Every line of a listing goes to the app role, to the admin or nowhere, and no line but
those that are dropped is lost; the rows of a table go to the admin exactly if no entry creates
the table; the schemas remembered are those that exist and are created. -/
theorem splitListing_partitions (listing : String) (extensions existing : List String) :
    Partitions withoutReturn listing extensions existing
      (splitListing listing extensions existing) (placeOf listing extensions existing) ∧
    (∀ line schema name, schema ≠ "DATA" → Shows line ["TABLE", "DATA", schema, name] →
      (placeOf listing extensions existing line = .extensionData ↔
        ¬ ∃ other ∈ lines listing, Shows other ["TABLE", schema, name])) ∧
    ∀ schema, schema ∈ (splitListing listing extensions existing).madeSchemas ↔
      schema ∈ existing ∧ ∃ line ∈ lines listing, Shows line ["SCHEMA", "-", schema] := by
  refine ⟨⟨?_, ?_, fun line _ => placeOf_eq_dropped_iff⟩,
    fun line schema name hdata hrows => placeOf_rows hdata hrows, fun schema => mem_madeSchemas⟩
  · rw [splitListing_eq]
  · rw [splitListing_eq]

/-- A line of a listing that ends in a carriage return is written without it. -/
theorem splitListing_drops_return :
    lines "abc\r" = ["abc\r"] ∧ splitListing "abc\r" [] [] = ⟨"abc\n", "", []⟩ ∧
      ¬ ∃ place, Partitions id "abc\r" [] [] (splitListing "abc\r" [] []) place := by
  have hlines : lines "abc\r" = ["abc\r"] := by decide
  have hsplit : splitListing "abc\r" [] [] = ⟨"abc\n", "", []⟩ := by decide +kernel
  refine ⟨hlines, hsplit, ?_⟩
  rintro ⟨place, happ, hrows, hdropped⟩
  rw [hsplit, hlines] at happ hrows
  rw [hlines] at hdropped
  cases hplace : place "abc\r" with
  | app => simp [hplace, unlines] at happ
  | extensionData => simp [hplace, unlines] at hrows
  | dropped =>
      have := (hdropped _ List.mem_cons_self).mp hplace
      simp [Dropped] at this

end Fraisier.Db
