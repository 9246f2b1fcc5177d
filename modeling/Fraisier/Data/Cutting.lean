import Fraisier.Data.Utf8

/-!
# Cutting a text short

A text is cut at a number of bytes, at the last place before it where no character stands across
the cut. `exists_cut` says that what is kept is a front of the text.
-/

namespace Fraisier.Data

/-- The last offset, up to another, at which bytes can be cut. -/
def floorBoundary (bytes : List UInt8) : Nat → Nat
  | 0 => 0
  | offset + 1 =>
      if isBoundary bytes (offset + 1) then offset + 1 else floorBoundary bytes offset

/-- The characters whose bytes stand before an offset. -/
def charsBefore : List Char → Nat → List Char
  | [], _ => []
  | c :: chars, offset =>
      if (String.utf8EncodeChar c).length ≤ offset then
        c :: charsBefore chars (offset - (String.utf8EncodeChar c).length)
      else []

section Cutting

variable {chars : List Char}

theorem floorBoundary_le (bytes : List UInt8) (offset : Nat) :
    floorBoundary bytes offset ≤ offset := by
  induction offset with
  | zero => exact Nat.le_refl 0
  | succ offset ih =>
      rw [floorBoundary]
      split
      · exact Nat.le_refl _
      · omega

theorem isBoundary_floorBoundary (chars : List Char) (offset : Nat) :
    isBoundary (utf8 chars) (floorBoundary (utf8 chars) offset) = true := by
  induction offset with
  | zero => exact isBoundary_zero chars
  | succ offset ih =>
      rw [floorBoundary]
      split
      · next hhere => exact hhere
      · exact ih

/-- Up to a boundary a text has the characters before it. -/
theorem charsBefore_append (before after : List Char) :
    charsBefore (before ++ after) (utf8 before).length = before := by
  induction before with
  | nil =>
      cases after with
      | nil => rfl
      | cons c after =>
          have hpos : 0 < (String.utf8EncodeChar c).length := by
            rw [String.length_utf8EncodeChar]
            exact c.utf8Size_pos
          show (if (String.utf8EncodeChar c).length ≤ 0 then _ else []) = []
          exact if_neg (by omega)
  | cons c before ih =>
      rw [List.cons_append, charsBefore, utf8_cons, List.length_append, if_pos (by omega),
        Nat.add_sub_cancel_left, ih]

/-- A text that is cut short is a front of it, with no more bytes than were asked for. -/
theorem exists_cut (chars : List Char) (offset : Nat) :
    ∃ after, chars = charsBefore chars (floorBoundary (utf8 chars) offset) ++ after ∧
      (utf8 (charsBefore chars (floorBoundary (utf8 chars) offset))).length =
        floorBoundary (utf8 chars) offset := by
  obtain ⟨before, after, heq, hlength⟩ :=
    isBoundary_iff.mp (isBoundary_floorBoundary chars offset)
  have hcut : charsBefore chars (floorBoundary (utf8 chars) offset) = before := by
    rw [← hlength, heq, charsBefore_append]
  exact ⟨after, by rw [hcut, ← heq], by rw [hcut, hlength]⟩

/-- What is cut at fewer bytes than it has gets shorter. -/
theorem length_cut_lt {offset : Nat} (h : offset < (utf8 chars).length) :
    (charsBefore chars (floorBoundary (utf8 chars) offset)).length < chars.length := by
  obtain ⟨after, heq, hlength⟩ := exists_cut chars offset
  have hle := floorBoundary_le (utf8 chars) offset
  cases after with
  | nil =>
      rw [List.append_nil] at heq
      rw [← heq] at hlength
      omega
  | cons c after =>
      have hlengths := congrArg List.length heq
      rw [List.length_append, List.length_cons] at hlengths
      omega

end Cutting

end Fraisier.Data
