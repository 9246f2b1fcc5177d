import Mathlib.Data.List.Basic

/-!
# The bytes of a text

What characters are written as in UTF-8, and the offsets at which their bytes can be cut: a
cut inside a character is none. Read `isBoundary_iff` first.
-/

namespace Fraisier.Data

/-- The bytes of characters. -/
def utf8 (chars : List Char) : List UInt8 :=
  chars.flatMap String.utf8EncodeChar

/-- Whether a byte continues a character. -/
def isContinuation (byte : UInt8) : Bool :=
  0x80 ≤ byte && byte < 0xC0

/-- Whether bytes can be cut at an offset. -/
def isBoundary (bytes : List UInt8) (offset : Nat) : Bool :=
  match bytes[offset]? with
  | some byte => offset == 0 || !isContinuation byte
  | none => offset == bytes.length

@[simp] theorem utf8_nil : utf8 [] = [] := rfl

@[simp] theorem utf8_cons (c : Char) (chars : List Char) :
    utf8 (c :: chars) = String.utf8EncodeChar c ++ utf8 chars := rfl

@[simp] theorem utf8_append (chars chars' : List Char) :
    utf8 (chars ++ chars') = utf8 chars ++ utf8 chars' :=
  List.flatMap_append

/-- Every character has a byte. -/
theorem length_le_utf8 (chars : List Char) : chars.length ≤ (utf8 chars).length := by
  induction chars with
  | nil => exact Nat.le_refl _
  | cons c chars ih =>
      have hpos := c.utf8Size_pos
      rw [utf8_cons, List.length_append, String.length_utf8EncodeChar, List.length_cons]
      omega

/-! ## One character -/

theorem isContinuation_or (byte : UInt8) : isContinuation (byte &&& 0x3F ||| 0x80) = true := by
  have h : ∀ n : Fin 256, isContinuation (UInt8.ofFin n &&& 0x3F ||| 0x80) = true := by
    decide +kernel
  exact h byte.toFin

theorem not_isContinuation_of_lead {byte : UInt8} (h : byte.IsUTF8FirstByte) :
    isContinuation byte = false := by
  have hall : ∀ n : Fin 256, (UInt8.ofFin n).IsUTF8FirstByte →
      isContinuation (UInt8.ofFin n) = false := by
    unfold UInt8.IsUTF8FirstByte
    decide +kernel
  exact hall byte.toFin h

theorem not_ascii_or {mask : UInt8} (hmask : 0x80 ≤ mask) (byte : UInt8) :
    ¬ byte ||| mask < 0x80 := by
  rw [UInt8.not_lt]
  refine UInt8.le_trans hmask ?_
  rw [UInt8.le_iff_toNat_le, UInt8.toNat_or]
  exact Nat.right_le_or

/-- A character is written with a byte that continues none, and bytes that continue it. The
first is ASCII only where it is the only one. -/
theorem exists_encoded (c : Char) : ∃ lead rest, String.utf8EncodeChar c = lead :: rest ∧
    isContinuation lead = false ∧ (∀ byte ∈ rest, isContinuation byte = true) ∧
      (lead < 0x80 → rest = []) := by
  have hlead := UInt8.isUTF8FirstByte_getElem_zero_utf8EncodeChar (c := c)
  have hpos := c.utf8Size_pos
  have hle := c.utf8Size_le_four
  obtain h | h | h | h : c.utf8Size = 1 ∨ c.utf8Size = 2 ∨ c.utf8Size = 3 ∨ c.utf8Size = 4 := by
    omega
  · simp only [String.utf8EncodeChar_eq_singleton h] at hlead ⊢
    exact ⟨_, _, rfl, not_isContinuation_of_lead hlead, by simp, fun _ => rfl⟩
  · simp only [String.utf8EncodeChar_eq_cons_cons h] at hlead ⊢
    exact ⟨_, _, rfl, not_isContinuation_of_lead hlead, by simp [isContinuation_or],
      fun h => absurd h (not_ascii_or (by decide) _)⟩
  · simp only [String.utf8EncodeChar_eq_cons_cons_cons h] at hlead ⊢
    exact ⟨_, _, rfl, not_isContinuation_of_lead hlead, by simp [isContinuation_or],
      fun h => absurd h (not_ascii_or (by decide) _)⟩
  · simp only [String.utf8EncodeChar_eq_cons_cons_cons_cons h] at hlead ⊢
    exact ⟨_, _, rfl, not_isContinuation_of_lead hlead, by simp [isContinuation_or],
      fun h => absurd h (not_ascii_or (by decide) _)⟩

/-! ## Boundaries -/

/-- Bytes can be cut where they begin. -/
theorem isBoundary_zero (chars : List Char) : isBoundary (utf8 chars) 0 = true := by
  cases chars with
  | nil => rfl
  | cons c chars =>
      obtain ⟨lead, rest, hencoded, -⟩ := exists_encoded c
      simp [isBoundary, hencoded]

/-- Behind a character, bytes can be cut where those that follow can. -/
theorem isBoundary_add (c : Char) (chars : List Char) (offset : Nat) :
    isBoundary (utf8 (c :: chars)) ((String.utf8EncodeChar c).length + offset) =
      isBoundary (utf8 chars) offset := by
  by_cases hzero : offset = 0
  · subst hzero
    rw [isBoundary_zero]
    cases chars with
    | nil => simp [isBoundary]
    | cons d chars =>
        obtain ⟨lead', rest', hencoded', hlead', -⟩ := exists_encoded d
        simp [isBoundary, hencoded', hlead']
  · rw [isBoundary, isBoundary, utf8_cons, List.getElem?_append_right (Nat.le_add_right _ _),
      Nat.add_sub_cancel_left]
    cases (utf8 chars)[offset]? with
    | some byte =>
        have hne : (String.utf8EncodeChar c).length + offset ≠ 0 := by omega
        simp only [beq_eq_false_iff_ne.mpr hne, beq_eq_false_iff_ne.mpr hzero]
    | none => simp

/-- Inside a character, bytes can not be cut. -/
theorem not_isBoundary_inside {c : Char} {offset : Nat} (chars : List Char) (hpos : 0 < offset)
    (hlt : offset < (String.utf8EncodeChar c).length) :
    isBoundary (utf8 (c :: chars)) offset = false := by
  obtain ⟨lead, rest, hencoded, -, hrest, -⟩ := exists_encoded c
  obtain ⟨n, rfl⟩ : ∃ n, offset = n + 1 := ⟨offset - 1, by omega⟩
  have hn : n < rest.length := by simpa [hencoded] using hlt
  have hcontinues := hrest _ (List.getElem_mem hn)
  rw [isBoundary, utf8_cons, List.getElem?_append_left hlt, hencoded, List.getElem?_cons_succ,
    List.getElem?_eq_getElem hn]
  simp [hcontinues]

/-- The bytes of characters can be cut between two characters only. -/
theorem isBoundary_iff {chars : List Char} {offset : Nat} :
    isBoundary (utf8 chars) offset = true ↔
      ∃ before after, chars = before ++ after ∧ (utf8 before).length = offset := by
  induction chars generalizing offset with
  | nil =>
      have hnil : isBoundary (utf8 []) offset = (offset == 0) := by simp [isBoundary]
      simp only [hnil, beq_iff_eq, List.nil_eq_append_iff]
      constructor
      · rintro rfl
        exact ⟨[], [], ⟨rfl, rfl⟩, rfl⟩
      · rintro ⟨before, after, ⟨rfl, -⟩, hlength⟩
        exact hlength.symm
  | cons c chars ih =>
      constructor
      · intro h
        by_cases hzero : offset = 0
        · exact ⟨[], c :: chars, rfl, hzero.symm⟩
        · have hge : (String.utf8EncodeChar c).length ≤ offset := by
            by_contra hlt
            rw [not_isBoundary_inside chars (by omega) (by omega)] at h
            cases h
          obtain ⟨offset, rfl⟩ := Nat.exists_eq_add_of_le hge
          rw [isBoundary_add] at h
          obtain ⟨before, after, rfl, hlength⟩ := ih.mp h
          exact ⟨c :: before, after, rfl, by rw [utf8_cons, List.length_append, hlength]⟩
      · rintro ⟨before, after, heq, hlength⟩
        cases before with
        | nil => exact hlength ▸ isBoundary_zero (c :: chars)
        | cons d before =>
            obtain ⟨rfl, rfl⟩ := List.cons.inj heq
            rw [← hlength, utf8_cons c before, List.length_append, isBoundary_add]
            exact ih.mpr ⟨before, after, rfl, rfl⟩

/-- A character stands across an offset. -/
def Straddles (chars : List Char) (offset : Nat) : Prop :=
  ∃ before c after, chars = before ++ c :: after ∧ (utf8 before).length < offset ∧
    offset < (utf8 before).length + (String.utf8EncodeChar c).length

/-- Within their length, bytes can not be cut where a character stands across the offset. -/
theorem isBoundary_eq_false_iff {chars : List Char} {offset : Nat}
    (hle : offset ≤ (utf8 chars).length) :
    isBoundary (utf8 chars) offset = false ↔ Straddles chars offset := by
  constructor
  · intro h
    induction chars generalizing offset with
    | nil =>
        have hzero : offset = 0 := by simpa using hle
        rw [hzero, isBoundary_zero] at h
        cases h
    | cons c chars ih =>
        by_cases hinside : offset < (String.utf8EncodeChar c).length
        · refine ⟨[], c, chars, rfl, ?_, by simpa using hinside⟩
          rw [utf8_nil, List.length_nil, Nat.pos_iff_ne_zero]
          intro hzero
          rw [hzero, isBoundary_zero] at h
          cases h
        · obtain ⟨offset, rfl⟩ := Nat.exists_eq_add_of_le (Nat.le_of_not_lt hinside)
          rw [isBoundary_add] at h
          rw [utf8_cons, List.length_append] at hle
          obtain ⟨before, d, after, rfl, hbefore, hafter⟩ := ih (by omega) h
          refine ⟨c :: before, d, after, rfl, ?_, ?_⟩
          · rw [utf8_cons, List.length_append]
            omega
          · rw [utf8_cons, List.length_append]
            omega
  · rintro ⟨before, c, after, rfl, hbefore, hafter⟩
    induction before generalizing offset with
    | nil => exact not_isBoundary_inside after hbefore (by simpa using hafter)
    | cons d before ih =>
        rw [utf8_cons, List.length_append] at hbefore hafter
        obtain ⟨offset, rfl⟩ :=
          Nat.exists_eq_add_of_le (show (String.utf8EncodeChar d).length ≤ offset by omega)
        rw [List.cons_append, isBoundary_add]
        refine ih ?_ (by omega) (by omega)
        rw [List.cons_append, utf8_cons, List.length_append] at hle
        omega

/-! ## ASCII -/

theorem utf8EncodeChar_ascii {c : Char} (h : c.toNat < 128) :
    String.utf8EncodeChar c = [c.val.toUInt8] := by
  refine String.utf8EncodeChar_eq_singleton (Char.utf8Size_eq_one_iff.mpr ?_)
  rw [UInt32.le_iff_toNat_le]
  exact Nat.lt_succ_iff.mp h

theorem utf8_ascii {chars : List Char} (h : ∀ c ∈ chars, c.toNat < 128) :
    utf8 chars = chars.map fun c => c.val.toUInt8 := by
  induction chars with
  | nil => rfl
  | cons c chars ih =>
      rw [utf8_cons, utf8EncodeChar_ascii (h c List.mem_cons_self),
        ih fun d hd => h d (List.mem_cons_of_mem c hd)]
      rfl

theorem toNat_ascii {c : Char} (h : c.toNat < 128) : c.val.toUInt8.toNat = c.toNat := by
  rw [UInt32.toNat_toUInt8]
  exact Nat.mod_eq_of_lt (show c.toNat < 256 by omega)

/-- What is written with ASCII bytes is ASCII. -/
theorem ascii_of_utf8 {chars : List Char} (h : ∀ byte ∈ utf8 chars, byte < 0x80) :
    ∀ c ∈ chars, c.toNat < 128 := by
  intro c hc
  obtain ⟨lead, rest, hencoded, -, -, hrest⟩ := exists_encoded c
  have hlead : lead < 0x80 :=
    h lead (List.mem_flatMap.mpr ⟨c, hc, by rw [hencoded]; exact List.mem_cons_self⟩)
  have hsize : c.utf8Size = 1 := by
    rw [← String.length_utf8EncodeChar, hencoded, hrest hlead]
    rfl
  exact Nat.lt_succ_of_le (Char.utf8Size_eq_one_iff.mp hsize)

/-- Bytes can be cut behind an ASCII byte. -/
theorem isBoundary_succ {chars : List Char} {offset : Nat} {byte : UInt8}
    (h : (utf8 chars)[offset]? = some byte) (hascii : byte < 0x80) :
    isBoundary (utf8 chars) (offset + 1) = true := by
  have hhere : isBoundary (utf8 chars) offset = true := by
    have hcontinues : isContinuation byte = false := by
      rw [isContinuation, Bool.and_eq_false_iff]
      exact .inl (decide_eq_false (UInt8.not_le.mpr hascii))
    simp [isBoundary, h, hcontinues]
  obtain ⟨before, after, rfl, rfl⟩ := isBoundary_iff.mp hhere
  rw [utf8_append, List.getElem?_append_right (Nat.le_refl _), Nat.sub_self] at h
  cases after with
  | nil => cases h
  | cons c after =>
      obtain ⟨lead, rest, hencoded, -, -, hrest⟩ := exists_encoded c
      rw [utf8_cons, hencoded, List.cons_append, List.getElem?_cons_zero] at h
      cases h
      refine isBoundary_iff.mpr ⟨before ++ [c], after, by simp, ?_⟩
      simp only [utf8_append, utf8_cons, utf8_nil, hencoded, hrest hascii, List.length_append,
        List.append_nil, List.length_singleton]

end Fraisier.Data
