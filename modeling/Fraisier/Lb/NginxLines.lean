import Fraisier.Data.Words
import Fraisier.Lb.Nginx

/-!
# Directives on lines of their own

What the adapter sees of a line that holds one directive of words between blanks, and what it
makes of it. `serverLine_eq` and `setDown_eq` say both for every such line.
-/

namespace Fraisier.Lb

open Fraisier.Core
open Fraisier.Data (Alphabet)

/-- Words of directives: no semicolon is part of one, and a gap has only blanks in it. -/
structure DirectiveWords (a : Alphabet) : Prop where
  blank : ∀ {c}, a.isGap c = true → c = ' ' ∨ c = '\t'
  noEnd : a.isWord ';' = false

section Lines

variable {a : Alphabet} {indent body tail : List Char} {words : List String} {line : String}

theorem isWhitespace_semicolon : Data.isWhitespace ';' = false := by
  decide

/-- A line without its indentation. -/
theorem dropWhile_line (hindent : ∀ c ∈ indent, Data.isWhitespace c = true)
    (hbody : a.Spaced body words) (hline : line.toList = indent ++ (body ++ ';' :: tail)) :
    line.toList.dropWhile Data.isWhitespace = body ++ ';' :: tail := by
  obtain ⟨c, hc, hword⟩ := hbody.exists_head
  rw [hline]
  exact Data.dropWhile_whitespace hindent (by rw [List.head?_append, hc]; rfl) (a.visible hword)

/-- The end of a line is cut off behind the semicolon. -/
theorem trimEnd_line (htail : ∀ c ∈ tail, Data.isWhitespace c = true) :
    Data.trimEnd (String.ofList (body ++ ';' :: tail)) = String.ofList (body ++ [';']) := by
  rw [← List.singleton_append, ← List.append_assoc, Data.trimEnd_append htail,
    Data.trimEnd_of_visible isWhitespace_semicolon]

theorem trim_line (hindent : ∀ c ∈ indent, Data.isWhitespace c = true)
    (hbody : a.Spaced body words) (htail : ∀ c ∈ tail, Data.isWhitespace c = true)
    (hline : line.toList = indent ++ (body ++ ';' :: tail)) :
    Data.trim line = String.ofList (body ++ [';']) := by
  rw [Data.trim_eq, dropWhile_line hindent hbody hline, trimEnd_line htail]

/-- A directive is rewritten as its words with a space between two, with or without `down`. -/
theorem setDown_eq (down : Bool) (hindent : ∀ c ∈ indent, Data.isWhitespace c = true)
    (hbody : a.Spaced body words) (htail : ∀ c ∈ tail, Data.isWhitespace c = true)
    (hline : line.toList = indent ++ (body ++ ';' :: tail)) :
    setDown down line = String.ofList indent ++ " ".intercalate
      (words.filter (· ≠ "down") ++ if down then ["down"] else []) ++ ";" := by
  have hdrop := dropWhile_line hindent hbody hline
  have htake : line.toList.takeWhile Data.isWhitespace = indent := by
    have hboth := List.takeWhile_append_dropWhile (p := Data.isWhitespace) (l := line.toList)
    rw [hdrop] at hboth
    exact List.append_cancel_right (hboth.trans hline)
  have hsemicolon : Data.stripSuffix (String.ofList (body ++ [';'])) ";" =
      some (String.ofList body) := by
    rw [String.ofList_append]
    exact Data.stripSuffix_append _ _
  have hsplit : Data.splitWhitespace (Data.trimEnd (String.ofList body)) = words := by
    rw [Data.splitWhitespace_trimEnd, Data.splitWhitespace, String.toList_ofList,
      hbody.wordsFrom_eq]
  rw [setDown, htake, hdrop, trimEnd_line htail, hsemicolon, Option.getD_some, hsplit]
  cases down with
  | true => rfl
  | false => simp

/-! ## The pieces of a directive -/

/-- What separates the pieces of a directive. -/
def separates (c : Char) : Bool :=
  c = ' ' || c = '\t' || c = ';'

/-- Separators in front of a text add empty pieces only. -/
theorem filter_splitOnP_separators {gap : List Char} (hgap : ∀ c ∈ gap, separates c = true)
    (text : List Char) : ((gap ++ text).splitOnP separates).filter (· ≠ []) =
      (text.splitOnP separates).filter (· ≠ []) := by
  induction gap with
  | nil => rfl
  | cons c gap ih =>
      rw [List.cons_append, List.splitOnP_cons_eq_if_modifyHead, if_pos (hgap c List.mem_cons_self),
        List.filter_cons_of_neg (by simp), ih fun d hd => hgap d (List.mem_cons_of_mem c hd)]

theorem separates_gap (ha : DirectiveWords a) {gap : List Char} (hgap : a.Gap gap) :
    ∀ c ∈ gap, separates c = true := by
  intro c hc
  obtain rfl | rfl := ha.blank (hgap c hc)
  · rfl
  · rfl

/-- No character of a word separates pieces. -/
theorem not_separates_word (ha : DirectiveWords a) {word : String} (hword : a.Word word) :
    ∀ c ∈ word.toList, separates c = false := by
  intro c hc
  have hisWord := hword.isWord c hc
  rw [separates, Bool.or_eq_false_iff, Bool.or_eq_false_iff, decide_eq_false_iff_not,
    decide_eq_false_iff_not, decide_eq_false_iff_not]
  refine ⟨⟨?_, ?_⟩, ?_⟩
  · rintro rfl
    exact absurd (a.visible hisWord) (by decide)
  · rintro rfl
    exact absurd (a.visible hisWord) (by decide)
  · rintro rfl
    rw [ha.noEnd] at hisWord
    cases hisWord

/-- The first piece of a directive is its first word, and the others are the other words but for
empty pieces. -/
theorem exists_splitOnP (ha : DirectiveWords a) (hbody : a.Spaced body words) :
    ∃ word rest more, words = word :: rest ∧
      (body ++ [';']).splitOnP separates = word.toList :: more ∧
      more.filter (· ≠ []) = rest.map String.toList := by
  induction hbody with
  | @last word gap hword hgap =>
      have hend : ∀ c ∈ gap ++ [';'], separates c = true := by
        intro c hc
        obtain hc | hc := List.mem_append.mp hc
        · exact separates_gap ha hgap c hc
        · rw [List.mem_singleton.mp hc]
          rfl
      obtain ⟨c, more, hmore⟩ : ∃ c more, gap ++ [';'] = c :: more :=
        List.exists_cons_of_ne_nil (by simp)
      rw [hmore] at hend
      have hempty := filter_splitOnP_separators (fun d hd => hend d (List.mem_cons_of_mem c hd)) []
      rw [List.append_nil] at hempty
      refine ⟨word, [], more.splitOnP separates, rfl, ?_, hempty⟩
      rw [List.append_assoc, hmore, List.splitOnP_append_cons_of_forall_mem
        (not_separates_word ha hword) c (hend c List.mem_cons_self)]
  | @cons word gap rest words hword hgap hne hrest ih =>
      obtain ⟨next, others, more, rfl, hsplit, hfilter⟩ := ih
      obtain ⟨c, gap, rfl⟩ := List.exists_cons_of_ne_nil hne
      have hsep := separates_gap ha hgap
      have hnext : next.toList ≠ [] := (hrest.word List.mem_cons_self).nonempty
      refine ⟨word, next :: others, (gap ++ (rest ++ [';'])).splitOnP separates, rfl, ?_, ?_⟩
      · rw [List.append_assoc, List.append_assoc, List.cons_append,
          List.splitOnP_append_cons_of_forall_mem (not_separates_word ha hword) c
            (hsep c List.mem_cons_self)]
      · rw [filter_splitOnP_separators fun d hd => hsep d (List.mem_cons_of_mem c hd), hsplit,
          List.filter_cons_of_pos (by simpa using hnext), hfilter, List.map_cons]

/-- The weight that a piece gives. -/
def pieceWeight (piece : String) : Option Nat :=
  (Data.stripPrefix piece "weight=").bind parseU32

/-- The weight among pieces does not depend on the empty ones. -/
theorem findSome?_pieceWeight_filter (pieces : List String) :
    (pieces.filter (· ≠ "")).findSome? pieceWeight = pieces.findSome? pieceWeight := by
  have hempty : pieceWeight "" = none := by decide
  induction pieces with
  | nil => rfl
  | cons piece rest ih =>
      by_cases hpiece : piece = ""
      · rw [hpiece, List.filter_cons_of_neg (by simp), List.findSome?_cons, hempty, ih]
      · rw [List.filter_cons_of_pos (by simpa using hpiece), List.findSome?_cons,
          List.findSome?_cons, ih]

/-- The membership that pieces give does not depend on the empty ones. -/
theorem membershipOf_filter (pieces : List String) :
    membershipOf (pieces.filter (· ≠ "")) = membershipOf pieces := by
  have hcontains : (pieces.filter (· ≠ "")).contains "down" = pieces.contains "down" := by
    rw [Bool.eq_iff_iff, List.contains_iff_mem, List.contains_iff_mem, List.mem_filter]
    simp
  rw [membershipOf, hcontains]
  exact congrArg (LbMembership.mk _) (findSome?_pieceWeight_filter pieces)

/-- What the adapter sees of a `server` directive with an address. -/
theorem serverLine_eq (ha : DirectiveWords a) {address : String} {params : List String}
    (hindent : ∀ c ∈ indent, Data.isWhitespace c = true)
    (hbody : a.Spaced body ("server" :: address :: params))
    (htail : ∀ c ∈ tail, Data.isWhitespace c = true)
    (hline : line.toList = indent ++ (body ++ ';' :: tail)) (token : String) :
    serverLine token (Data.trim line) =
      if hostPart address = token then some (membershipOf (address :: params)) else none := by
  rw [trim_line hindent hbody htail hline]
  cases hbody with
  | @cons _ gap rest _ _ hgap _ hrest =>
      have hafter : Data.stripPrefix (String.ofList ("server".toList ++ (gap ++ rest) ++ [';']))
          "server" = some (String.ofList (gap ++ (rest ++ [';']))) := by
        rw [List.append_assoc, List.append_assoc, String.ofList_append, String.ofList_toList]
        exact Data.stripPrefix_append _ _
      obtain ⟨c, hc, hword⟩ := hrest.exists_head
      have hrestTrim : Data.trim (String.ofList (gap ++ (rest ++ [';']))) =
          String.ofList (rest ++ [';']) := by
        rw [Data.trim_eq, String.toList_ofList, Data.dropWhile_whitespace hgap.whitespace
          (by rw [List.head?_append, hc]; rfl) (a.visible hword),
          Data.trimEnd_of_visible isWhitespace_semicolon]
      obtain ⟨word, others, more, hwords, hsplit, hfilter⟩ := exists_splitOnP ha hrest
      obtain ⟨rfl, rfl⟩ := List.cons.inj hwords
      have hpieces : pieces (String.ofList (rest ++ [';'])) =
          address :: more.map String.ofList := by
        rw [pieces, String.toList_ofList]
        exact (congrArg (List.map String.ofList) hsplit).trans (by simp)
      have hne : address ≠ "" := by
        rintro rfl
        exact (hrest.word List.mem_cons_self).nonempty rfl
      have hfilterMap : (address :: more.map String.ofList).filter (· ≠ "") =
          address :: params := by
        have hmap : (more.map String.ofList).filter (· ≠ "") =
            (more.filter (· ≠ [])).map String.ofList := by
          rw [List.filter_map]
          refine congrArg (List.map String.ofList) (List.filter_congr fun piece _ => ?_)
          simp
        rw [List.filter_cons_of_pos (by simpa using hne), hmap, hfilter, List.map_map]
        simp [Function.comp_def]
      rw [serverLine, hafter]
      simp only [hrestTrim, hpieces, List.head?_cons, Option.getD_some, hne, ne_eq,
        not_false_eq_true, true_and]
      rw [← membershipOf_filter, hfilterMap]

end Lines

/-! ## The text of some lines -/

/-- The characters of some lines. -/
def written (lines : List String) : List Char :=
  lines.flatMap fun line => line.toList ++ ['\n']

theorem written_append (lines lines' : List String) :
    written (lines ++ lines') = written lines ++ written lines' :=
  List.flatMap_append

theorem written_cons (line : String) (lines : List String) :
    written (line :: lines) = (line.toList ++ ['\n']) ++ written lines :=
  List.flatMap_cons

/-- Lines that are joined and ended are written one after the other. -/
theorem toList_intercalate_newline {lines : List String} (hne : lines ≠ []) :
    ("\n".intercalate lines ++ "\n").toList = written lines := by
  induction lines with
  | nil => exact absurd rfl hne
  | cons line lines ih =>
      cases lines with
      | nil => simp [written]
      | cons next lines =>
          have hrest := ih (by simp)
          rw [written_cons, ← hrest]
          simp

end Fraisier.Lb
