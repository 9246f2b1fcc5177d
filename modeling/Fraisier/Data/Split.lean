import Mathlib.Data.List.Infix

/-!
# Splitting at separators

The first place where characters are found, and the last place of one.
-/

namespace Fraisier.Data

/-- What stands before and behind the first occurrence of some characters. -/
def splitOnce (separator : List Char) : List Char → Option (List Char × List Char)
  | [] => none
  | c :: rest =>
      if separator.isPrefixOf (c :: rest) then some ([], (c :: rest).drop separator.length)
      else (splitOnce separator rest).map fun parts => (c :: parts.1, parts.2)

/-- What stands before and behind the last occurrence of a character. -/
def rsplitOnce (separator : Char) : List Char → Option (List Char × List Char)
  | [] => none
  | c :: rest =>
      match rsplitOnce separator rest with
      | some parts => some (c :: parts.1, parts.2)
      | none => if c = separator then some ([], rest) else none

variable {separator : Char} {before after : List Char}

theorem splitOnce_eq_none (h : separator ∉ before) : splitOnce [separator] before = none := by
  induction before with
  | nil => rfl
  | cons c before ih =>
      rw [List.mem_cons, not_or] at h
      obtain ⟨hne, hrest⟩ := h
      simp [splitOnce, hne, ih hrest]

theorem splitOnce_append (h : separator ∉ before) :
    splitOnce [separator] (before ++ separator :: after) = some (before, after) := by
  induction before with
  | nil => simp [splitOnce]
  | cons c before ih =>
      rw [List.mem_cons, not_or] at h
      obtain ⟨hne, hrest⟩ := h
      simp [splitOnce, hne, ih hrest]

theorem rsplitOnce_eq_none (h : separator ∉ before) : rsplitOnce separator before = none := by
  induction before with
  | nil => rfl
  | cons c before ih =>
      rw [List.mem_cons, not_or] at h
      obtain ⟨hne, hrest⟩ := h
      simp [rsplitOnce, ih hrest, Ne.symm hne]

theorem rsplitOnce_append (h : separator ∉ after) :
    rsplitOnce separator (before ++ separator :: after) = some (before, after) := by
  induction before with
  | nil => simp [rsplitOnce, rsplitOnce_eq_none h]
  | cons c before ih => simp [rsplitOnce, ih]

theorem not_mem_of_rsplitOnce {text : List Char} (h : rsplitOnce separator text = none) :
    separator ∉ text := by
  induction text with
  | nil => exact List.not_mem_nil
  | cons c rest ih =>
      rw [rsplitOnce] at h
      cases hrest : rsplitOnce separator rest with
      | some parts =>
          rw [hrest] at h
          cases h
      | none =>
          rw [hrest] at h
          dsimp only at h
          split at h
          next => cases h
          next hc => exact List.mem_cons.not.mpr (not_or.mpr ⟨Ne.symm hc, ih hrest⟩)

/-- What is split at the last occurrence of a character is put together again by it. -/
theorem eq_append_of_rsplitOnce {text : List Char}
    (h : rsplitOnce separator text = some (before, after)) :
    text = before ++ separator :: after ∧ separator ∉ after := by
  induction text generalizing before with
  | nil => cases h
  | cons c rest ih =>
      rw [rsplitOnce] at h
      cases hrest : rsplitOnce separator rest with
      | some parts =>
          rw [hrest] at h
          cases h
          obtain ⟨hsplit, hnone⟩ := ih hrest
          exact ⟨by rw [hsplit]; rfl, hnone⟩
      | none =>
          rw [hrest] at h
          dsimp only at h
          split at h
          next hc =>
            cases h
            exact ⟨by rw [hc]; rfl, not_mem_of_rsplitOnce hrest⟩
          next => cases h

/-- What stands behind the last occurrence of a character, or all of a text. -/
def afterLast (separator : Char) (text : List Char) : List Char :=
  ((rsplitOnce separator text).map Prod.snd).getD text

theorem afterLast_of_not_mem (h : separator ∉ before) : afterLast separator before = before := by
  rw [afterLast, rsplitOnce_eq_none h]
  rfl

theorem afterLast_append_cons (h : separator ∉ after) :
    afterLast separator (before ++ separator :: after) = after := by
  rw [afterLast, rsplitOnce_append h]
  rfl

/-- What follows is behind the last occurrence too. -/
theorem afterLast_append (h : separator ∉ after) :
    afterLast separator (before ++ after) = afterLast separator before ++ after := by
  cases hsplit : rsplitOnce separator before with
  | none =>
      have hbefore := not_mem_of_rsplitOnce hsplit
      rw [afterLast_of_not_mem hbefore, afterLast_of_not_mem
        (List.mem_append.not.mpr (not_or.mpr ⟨hbefore, h⟩))]
  | some parts =>
      obtain ⟨start, rest⟩ := parts
      obtain ⟨rfl, hrest⟩ := eq_append_of_rsplitOnce hsplit
      rw [afterLast_append_cons hrest, List.append_assoc, List.cons_append,
        afterLast_append_cons (List.mem_append.not.mpr (not_or.mpr ⟨hrest, h⟩))]

/-- What comes before an occurrence is never behind the last one. -/
theorem afterLast_prepend (before after : List Char) :
    afterLast separator (before ++ separator :: after) = afterLast separator after := by
  cases hsplit : rsplitOnce separator after with
  | none =>
      have hafter := not_mem_of_rsplitOnce hsplit
      rw [afterLast_append_cons hafter, afterLast_of_not_mem hafter]
  | some parts =>
      obtain ⟨start, rest⟩ := parts
      obtain ⟨rfl, hrest⟩ := eq_append_of_rsplitOnce hsplit
      rw [← List.cons_append, ← List.append_assoc, afterLast_append_cons hrest,
        afterLast_append_cons hrest]

end Fraisier.Data
