import Mathlib.Data.List.TakeWhile
import Fraisier.Data.Lines

/-!
# Words and the gaps between them

A text of words with gaps between them and after the last one, and what becomes of the words
when such a text is split, trimmed and written again.
-/

namespace Fraisier.Data

/-- What words and gaps are made of. A gap is whitespace, and there is none in a word. -/
structure Alphabet where
  isWord : Char → Bool
  isGap : Char → Bool
  whitespace : ∀ {c}, isGap c = true → isWhitespace c = true
  visible : ∀ {c}, isWord c = true → isWhitespace c = false
  space : isGap ' ' = true

namespace Alphabet

variable (a : Alphabet)

/-- A run of gap characters, or none. -/
def Gap (text : List Char) : Prop :=
  ∀ c ∈ text, a.isGap c = true

/-- A word is not empty. -/
structure Word (word : String) : Prop where
  nonempty : word.toList ≠ []
  isWord : ∀ c ∈ word.toList, a.isWord c = true

/-- Words with gaps between them, and maybe one after the last. -/
inductive Spaced : List Char → List String → Prop
  | last {word : String} {gap : List Char} (hword : a.Word word) (hgap : a.Gap gap) :
      Spaced (word.toList ++ gap) [word]
  | cons {word : String} {gap rest : List Char} {words : List String} (hword : a.Word word)
      (hgap : a.Gap gap) (hne : gap ≠ []) (hrest : Spaced rest words) :
      Spaced (word.toList ++ (gap ++ rest)) (word :: words)

end Alphabet

/-! ## Splitting -/

/-- Whitespace in front of a text adds no word. -/
theorem wordsFrom_whitespace {gap : List Char} (hgap : ∀ c ∈ gap, isWhitespace c = true)
    (rest : List Char) : wordsFrom [] (gap ++ rest) = wordsFrom [] rest := by
  induction gap with
  | nil => rfl
  | cons c gap ih =>
      rw [List.cons_append, wordsFrom, if_pos (hgap c List.mem_cons_self)]
      exact ih fun d hd => hgap d (List.mem_cons_of_mem c hd)

/-- Visible characters are collected. -/
theorem wordsFrom_visible {word : List Char} (hword : ∀ c ∈ word, isWhitespace c = false)
    (before rest : List Char) :
    wordsFrom before (word ++ rest) = wordsFrom (word.reverse ++ before) rest := by
  induction word generalizing before with
  | nil => rfl
  | cons c word ih =>
      have hc : ¬isWhitespace c = true := by simp [hword c List.mem_cons_self]
      rw [List.cons_append, wordsFrom, if_neg hc,
        ih (fun d hd => hword d (List.mem_cons_of_mem c hd)), List.reverse_cons,
        List.append_assoc, List.singleton_append]

/-- A word ends at the whitespace that follows it. -/
theorem wordsFrom_end {before gap : List Char} (hbefore : before ≠ []) (hne : gap ≠ [])
    (hgap : ∀ c ∈ gap, isWhitespace c = true) (rest : List Char) :
    wordsFrom before (gap ++ rest) = String.ofList before.reverse :: wordsFrom [] rest := by
  have hempty : before.isEmpty = false := by simpa using hbefore
  cases gap with
  | nil => exact absurd rfl hne
  | cons c gap =>
      rw [List.cons_append, wordsFrom, if_pos (hgap c List.mem_cons_self), hempty,
        wordsFrom_whitespace fun d hd => hgap d (List.mem_cons_of_mem c hd)]
      rfl

/-- Whitespace after a text adds no word. -/
theorem wordsFrom_append_whitespace {gap : List Char}
    (hgap : ∀ c ∈ gap, isWhitespace c = true) (before text : List Char) :
    wordsFrom before (text ++ gap) = wordsFrom before text := by
  induction gap using List.reverseRecOn with
  | nil => rw [List.append_nil]
  | append_singleton gap c ih =>
      rw [← List.append_assoc, wordsFrom_concat (hgap c (by simp)),
        ih fun d hd => hgap d (List.mem_append_left _ hd)]

/-! ## Trimming -/

/-- The end of a text is cut off where the whitespace starts. -/
theorem trimEnd_append {text gap : List Char} (hgap : ∀ c ∈ gap, isWhitespace c = true) :
    trimEnd (String.ofList (text ++ gap)) = trimEnd (String.ofList text) := by
  have hreverse : ∀ c ∈ gap.reverse, isWhitespace c = true := by simpa using hgap
  simp only [trimEnd, String.toList_ofList, List.reverse_append]
  rw [List.dropWhile_append_of_pos hreverse]

/-- A text that ends in something visible keeps its end. -/
theorem trimEnd_of_visible {text : List Char} {c : Char} (hc : isWhitespace c = false) :
    trimEnd (String.ofList (text ++ [c])) = String.ofList (text ++ [c]) := by
  simp [trimEnd, hc]

/-- What is cut off at the end of a text is whitespace. -/
theorem exists_eq_trimEnd_append (text : String) :
    ∃ gap, (∀ c ∈ gap, isWhitespace c = true) ∧ text.toList = (trimEnd text).toList ++ gap := by
  refine ⟨(text.toList.reverse.takeWhile isWhitespace).reverse, ?_, ?_⟩
  · intro c hc
    exact List.mem_takeWhile_imp (List.mem_reverse.mp hc)
  · rw [trimEnd, String.toList_ofList, ← List.reverse_append, List.takeWhile_append_dropWhile,
      List.reverse_reverse]

@[simp] theorem splitWhitespace_trimEnd (text : String) :
    splitWhitespace (trimEnd text) = splitWhitespace text := by
  obtain ⟨gap, hgap, htext⟩ := exists_eq_trimEnd_append text
  rw [splitWhitespace, splitWhitespace, htext, wordsFrom_append_whitespace hgap]

/-- A text is trimmed at its start and then at its end. -/
theorem trim_eq (text : String) :
    trim text = trimEnd (String.ofList (text.toList.dropWhile isWhitespace)) := by
  rw [trim, trimEnd, String.toList_ofList]

/-- Whitespace in front of something visible is cut off. -/
theorem dropWhile_whitespace {gap text : List Char} {c : Char}
    (hgap : ∀ c ∈ gap, isWhitespace c = true) (hhead : text.head? = some c)
    (hc : isWhitespace c = false) : (gap ++ text).dropWhile isWhitespace = text := by
  rw [List.dropWhile_append_of_pos hgap]
  obtain ⟨text, rfl⟩ := List.head?_eq_some_iff.mp hhead
  exact List.dropWhile_cons_of_neg (by simp [hc])

/-! ## Spaced words -/

namespace Alphabet

variable {a : Alphabet} {text : List Char} {words : List String}

theorem Gap.whitespace {gap : List Char} (h : a.Gap gap) : ∀ c ∈ gap, isWhitespace c = true :=
  fun c hc => a.whitespace (h c hc)

theorem Word.visible {word : String} (h : a.Word word) :
    ∀ c ∈ word.toList, isWhitespace c = false :=
  fun c hc => a.visible (h.isWord c hc)

/-- Whether a text is a word can be tested. -/
theorem Word.of_all {word : String} (hne : word.toList ≠ [])
    (h : word.toList.all a.isWord = true) : a.Word word :=
  ⟨hne, List.all_eq_true.mp h⟩

/-- A word starts with something visible. -/
theorem Word.exists_head {word : String} (h : a.Word word) :
    ∃ c, word.toList.head? = some c ∧ a.isWord c = true := by
  obtain ⟨c, rest, hword⟩ := List.exists_cons_of_ne_nil h.nonempty
  exact ⟨c, by rw [hword]; rfl, h.isWord c (by rw [hword]; exact List.mem_cons_self)⟩

namespace Spaced

theorem word {word : String} (h : a.Spaced text words) (hword : word ∈ words) : a.Word word := by
  induction h with
  | last hfirst _ => rwa [List.mem_singleton.mp hword]
  | cons hfirst _ _ _ ih =>
      obtain rfl | hrest := List.mem_cons.mp hword
      · exact hfirst
      · exact ih hrest

/-- Spaced words are made of the characters of words and of gaps. -/
theorem isWord_or_isGap {c : Char} (h : a.Spaced text words) (hc : c ∈ text) :
    a.isWord c = true ∨ a.isGap c = true := by
  induction h with
  | last hword hgap => exact (List.mem_append.mp hc).imp (hword.isWord c) (hgap c)
  | cons hword hgap _ _ ih =>
      obtain hc | hc := List.mem_append.mp hc
      · exact .inl (hword.isWord c hc)
      · exact (List.mem_append.mp hc).elim (fun hc => .inr (hgap c hc)) ih

/-- Spaced words start with something visible. -/
theorem exists_head (h : a.Spaced text words) :
    ∃ c, text.head? = some c ∧ a.isWord c = true := by
  cases h with
  | last hword _ =>
      obtain ⟨c, hc, hvisible⟩ := hword.exists_head
      exact ⟨c, by rw [List.head?_append, hc]; rfl, hvisible⟩
  | cons hword _ _ _ =>
      obtain ⟨c, hc, hvisible⟩ := hword.exists_head
      exact ⟨c, by rw [List.head?_append, hc]; rfl, hvisible⟩

/-- Spaced words are split into these words. -/
theorem wordsFrom_eq (h : a.Spaced text words) : wordsFrom [] text = words := by
  induction h with
  | last hword hgap =>
      rw [wordsFrom_append_whitespace hgap.whitespace,
        ← List.append_nil (String.toList _), wordsFrom_visible hword.visible]
      simp [wordsFrom, hword.nonempty]
  | cons hword hgap hne _ ih =>
      rw [wordsFrom_visible hword.visible, List.append_nil,
        wordsFrom_end (by simpa using hword.nonempty) hne hgap.whitespace, ih,
        List.reverse_reverse, String.ofList_toList]

/-- Words that are joined by spaces are spaced. -/
theorem of_intercalate (hne : words ≠ []) (h : ∀ word ∈ words, a.Word word) :
    a.Spaced (" ".intercalate words).toList words := by
  induction words with
  | nil => exact absurd rfl hne
  | cons word words ih =>
      have hword := h word List.mem_cons_self
      rw [String.toList_intercalate]
      cases words with
      | nil =>
          have hlast := Spaced.last (a := a) hword fun c hc => absurd hc List.not_mem_nil
          simpa using hlast
      | cons next words =>
          have hrest := ih (by simp) fun w hw => h w (List.mem_cons_of_mem word hw)
          rw [String.toList_intercalate] at hrest
          have hspace : a.Gap [' '] := fun c hc => by
            rw [List.mem_singleton.mp hc]
            exact a.space
          simpa using Spaced.cons hword hspace (by simp) hrest

end Spaced

end Alphabet

end Fraisier.Data
