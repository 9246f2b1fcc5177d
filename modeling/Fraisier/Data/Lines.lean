import Fraisier.Data.Text

/-!
# Lines that are written and read again

A text written as lines that each end in a newline is read as the same lines, but for one
carriage return at the end of each.
-/

namespace Fraisier.Data

/-- A line without a carriage return at its end. -/
def withoutReturn (line : String) : String :=
  if line.toList.getLast? = some '\r' then String.ofList line.toList.dropLast else line

/-- A line is read as it is, or it ends in a carriage return. -/
theorem withoutReturn_cases (line : String) :
    withoutReturn line = line ∨ line.toList = (withoutReturn line).toList ++ ['\r'] := by
  rw [withoutReturn]
  split
  next hlast =>
    refine .inr ?_
    rw [String.toList_ofList]
    exact (List.dropLast_append_getLast? '\r' hlast).symm
  next => exact .inl rfl

theorem withoutReturn_of_not_mem {line : String} (h : '\r' ∉ line.toList) :
    withoutReturn line = line :=
  if_neg fun hlast => h (List.mem_of_getLast? hlast)

/-- No line has a newline in it. -/
theorem newline_not_mem_linesFrom {word text : List Char} (hword : '\n' ∉ word) :
    ∀ line ∈ linesFrom word text, '\n' ∉ line.toList := by
  induction text generalizing word with
  | nil =>
      intro line hline
      rw [linesFrom] at hline
      split at hline
      · cases hline
      · rw [List.mem_singleton.mp hline, String.toList_ofList]
        simpa using hword
  | cons c rest ih =>
      intro line hline
      by_cases hc : c = '\n'
      · subst hc
        rw [linesFrom, List.mem_cons] at hline
        obtain rfl | hrest := hline
        · rw [String.toList_ofList, List.mem_reverse]
          split
          · exact fun h => hword (List.mem_of_mem_tail h)
          · exact hword
        · exact ih List.not_mem_nil line hrest
      · rw [linesFrom] at hline
        · exact ih (fun h => (List.mem_cons.mp h).elim (fun h => hc h.symm) hword) line hline
        · exact hc

theorem newline_not_mem_lines {text : String} : ∀ line ∈ lines text, '\n' ∉ line.toList :=
  newline_not_mem_linesFrom List.not_mem_nil

/-- The first line of a text ends at its first newline, and loses a carriage return. -/
theorem linesFrom_newline (word text rest : List Char) (hnewline : '\n' ∉ text) :
    linesFrom word (text ++ '\n' :: rest) =
      withoutReturn (String.ofList (word.reverse ++ text)) :: linesFrom [] rest := by
  induction text generalizing word with
  | nil =>
      rw [List.nil_append, List.append_nil, linesFrom, withoutReturn, String.toList_ofList,
        List.getLast?_reverse]
      split
      · rw [List.dropLast_reverse]
      · rfl
  | cons c text ih =>
      obtain ⟨hc, htext⟩ := not_or.mp (List.mem_cons.not.mp hnewline)
      have hstep : linesFrom word (c :: (text ++ '\n' :: rest)) =
          linesFrom (c :: word) (text ++ '\n' :: rest) := by
        rw [linesFrom]
        exact fun h => hc h.symm
      rw [List.cons_append, hstep, ih (c :: word) htext, List.reverse_cons, List.append_assoc,
        List.singleton_append]

/-- Lines that end in newlines are read in front of the others. -/
theorem linesFrom_flatMap_append {written : List String}
    (h : ∀ line ∈ written, '\n' ∉ line.toList) (rest : List Char) :
    linesFrom [] ((written.flatMap fun line => line.toList ++ ['\n']) ++ rest) =
      written.map withoutReturn ++ linesFrom [] rest := by
  induction written with
  | nil => rfl
  | cons line written ih =>
      rw [List.flatMap_cons, List.append_assoc, List.append_assoc, List.singleton_append,
        linesFrom_newline [] line.toList _ (h line List.mem_cons_self), List.reverse_nil,
        List.nil_append, String.ofList_toList, ih fun l hl => h l (List.mem_cons_of_mem line hl),
        List.map_cons, List.cons_append]

/-- Lines written with a newline after each are read as lines without a return. -/
theorem linesFrom_flatMap {written : List String} (h : ∀ line ∈ written, '\n' ∉ line.toList) :
    linesFrom [] (written.flatMap fun line => line.toList ++ ['\n']) =
      written.map withoutReturn := by
  have hread := linesFrom_flatMap_append h []
  rwa [List.append_nil, linesFrom, List.isEmpty_nil, if_pos rfl, List.append_nil] at hread

/-! ## The words of a line -/

/-- Whitespace at the end of a text adds no word. -/
theorem wordsFrom_concat {word text : List Char} {c : Char} (hc : isWhitespace c = true) :
    wordsFrom word (text ++ [c]) = wordsFrom word text := by
  induction text generalizing word with
  | nil => simp [wordsFrom, hc]
  | cons d text ih => simp only [List.cons_append, wordsFrom, ih]

@[simp] theorem splitWhitespace_withoutReturn (line : String) :
    splitWhitespace (withoutReturn line) = splitWhitespace line := by
  obtain hsame | hreturn := withoutReturn_cases line
  · rw [hsame]
  · rw [splitWhitespace, splitWhitespace, hreturn, wordsFrom_concat (by decide)]

/-- A line begins as it did, unless the return is all it begins with. -/
theorem startsWith_withoutReturn {line start : String} (hstart : '\r' ∉ start.toList) :
    (withoutReturn line).startsWith start = line.startsWith start := by
  obtain hsame | hreturn := withoutReturn_cases line
  · rw [hsame]
  · rw [Bool.eq_iff_iff, String.startsWith_string_iff, String.startsWith_string_iff, hreturn,
      List.prefix_concat_iff, or_iff_right]
    intro hall
    exact hstart (hall ▸ List.mem_append_right _ List.mem_cons_self)

end Fraisier.Data
