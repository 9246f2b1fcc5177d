import Mathlib.Data.List.Basic

/-!
# Patterns with stars

What a pattern over an alphabet describes, where one symbol stands for any run of symbols and
another for any one. A matcher that goes on behind a star need not come back to an earlier one:
read `Glob.star_of_append` first.
-/

namespace Fraisier.Data

/-- What a pattern describes: `many` stands for any run of symbols, `one` for any one symbol,
and every other symbol for itself. -/
inductive Glob {α : Type} (many one : α) : List α → List α → Prop
  | nil : Glob many one [] []
  | star {pattern text : List α} (run : List α) :
      Glob many one pattern text → Glob many one (many :: pattern) (run ++ text)
  | any {pattern text : List α} (c : α) :
      Glob many one pattern text → Glob many one (one :: pattern) (c :: text)
  | literal {pattern text : List α} {c : α} : c ≠ many → c ≠ one →
      Glob many one pattern text → Glob many one (c :: pattern) (c :: text)

namespace Glob

variable {α : Type} {many one : α} {pattern text : List α}

theorem nil_iff : Glob many one [] text ↔ text = [] := by
  constructor
  · intro h
    cases h
    rfl
  · rintro rfl
    exact .nil

/-- A star takes nothing, or the first symbol and what it takes behind it. -/
theorem star_cons_iff {c : α} (hne : many ≠ one) :
    Glob many one (many :: pattern) (c :: text) ↔
      Glob many one pattern (c :: text) ∨ Glob many one (many :: pattern) text := by
  constructor
  · intro h
    generalize hwhole : c :: text = whole at h
    cases h with
    | star run h =>
        cases run with
        | nil => exact .inl h
        | cons first run =>
            obtain ⟨-, rfl⟩ := List.cons.inj hwhole
            exact .inr (h.star run)
    | any first h => exact absurd rfl hne
    | literal hmany => exact absurd rfl hmany
  · rintro (h | h)
    · exact h.star []
    · cases h with
      | star run h => exact h.star (c :: run)
      | any first h => exact absurd rfl hne
      | literal hmany => exact absurd rfl hmany

/-- A symbol that is no star takes the first symbol, if it stands for it. -/
theorem cons_cons_iff {first c : α} (hmany : first ≠ many) :
    Glob many one (first :: pattern) (c :: text) ↔
      (first = one ∨ first = c) ∧ Glob many one pattern text := by
  constructor
  · intro h
    generalize hwhole : c :: text = whole at h
    cases h with
    | star run h => exact absurd rfl hmany
    | any c' h =>
        obtain ⟨-, rfl⟩ := List.cons.inj hwhole
        exact ⟨.inl rfl, h⟩
    | literal _ hone h =>
        obtain ⟨rfl, rfl⟩ := List.cons.inj hwhole
        exact ⟨.inr rfl, h⟩
  · rintro ⟨rfl | rfl, h⟩
    · exact h.any c
    · by_cases hone : first = one
      · subst hone
        exact h.any first
      · exact h.literal hmany hone

/-- Nothing is described by a pattern of stars alone. -/
theorem iff_of_nil : Glob many one pattern [] ↔ ∀ c ∈ pattern, c = many := by
  induction pattern with
  | nil => simp [nil_iff]
  | cons first pattern ih =>
      constructor
      · intro h
        generalize hwhole : ([] : List α) = whole at h
        cases h with
        | star run h =>
            obtain ⟨rfl, rfl⟩ := List.append_eq_nil_iff.mp hwhole.symm
            exact List.forall_mem_cons.mpr ⟨rfl, ih.mp h⟩
        | any c h => cases hwhole
        | literal => cases hwhole
      · intro h
        obtain ⟨rfl, hrest⟩ := List.forall_mem_cons.mp h
        exact (ih.mpr hrest).star []

/-- Symbols that are no stars take one symbol each. -/
theorem exists_append {front : List α} (hfront : many ∉ front)
    (h : Glob many one (front ++ pattern) text) :
    ∃ taken rest, text = taken ++ rest ∧ taken.length = front.length ∧
      Glob many one pattern rest := by
  induction front generalizing text with
  | nil => exact ⟨[], text, rfl, rfl, h⟩
  | cons first front ih =>
      obtain ⟨hfirst, hfront⟩ := not_or.mp (mt List.mem_cons.mpr hfront)
      cases text with
      | nil =>
          have hmany := iff_of_nil.mp h first List.mem_cons_self
          exact absurd hmany.symm hfirst
      | cons c text =>
          obtain ⟨-, h⟩ := (cons_cons_iff (Ne.symm hfirst)).mp h
          obtain ⟨taken, rest, rfl, hlength, h⟩ := ih hfront h
          exact ⟨c :: taken, rest, rfl, congrArg (· + 1) hlength, h⟩

/-- What is described behind a star is described behind it from wherever it starts. -/
theorem exists_suffix (hne : many ≠ one) (h : Glob many one (many :: pattern) text) :
    ∃ rest, rest <:+ text ∧ Glob many one pattern rest := by
  cases h with
  | star run h => exact ⟨_, List.suffix_append run _, h⟩
  | any c h => exact absurd rfl hne
  | literal hmany => exact absurd rfl hmany

theorem star_of_suffix {rest : List α} (hsuffix : rest <:+ text) (h : Glob many one pattern rest) :
    Glob many one (many :: pattern) text := by
  obtain ⟨run, rfl⟩ := hsuffix
  exact h.star run

/-- A star that a later one follows need not take more: between the two there is no star, and
what stands there took as many symbols as it has. -/
theorem star_of_append (hne : many ≠ one) {front taken rest left : List α}
    (hfront : many ∉ front) (hlength : taken.length = front.length)
    (hleft : left <:+ taken ++ rest)
    (h : Glob many one (many :: (front ++ many :: pattern)) left) :
    Glob many one (many :: pattern) rest := by
  obtain ⟨behind, hbehind, h⟩ := h.exists_suffix hne
  obtain ⟨taken', rest', rfl, hlength', h⟩ := h.exists_append hfront
  obtain ⟨final, hfinal, h⟩ := h.exists_suffix hne
  have hsuffix : rest' <:+ taken ++ rest := (List.suffix_append taken' rest').trans
    (hbehind.trans hleft)
  have hshort : rest'.length ≤ rest.length := by
    have hle := (hbehind.trans hleft).length_le
    simp only [List.length_append] at hle
    omega
  exact star_of_suffix
    (hfinal.trans (List.suffix_of_suffix_length_le hsuffix (List.suffix_append taken rest) hshort))
    h

/-- A star cannot take more where the text ends behind what followed it. -/
theorem not_star_of_append (hne : many ≠ one) {front taken left : List α}
    (hfront : many ∉ front) (hlength : taken.length = front.length)
    (hleft : left.length < taken.length) :
    ¬Glob many one (many :: (front ++ pattern)) left := by
  intro h
  obtain ⟨behind, hbehind, h⟩ := h.exists_suffix hne
  obtain ⟨taken', rest', rfl, hlength', -⟩ := h.exists_append hfront
  have hle := hbehind.length_le
  simp only [List.length_append] at hle
  omega

end Glob

end Fraisier.Data
