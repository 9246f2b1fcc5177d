import Mathlib.Data.List.Induction
import Mathlib.Data.List.Lex
import Mathlib.Data.String.Basic

/-!
# Decimals of a fixed width

Numbers below a power of ten, written with as many digits. Reading gives the number back, and
the texts are ordered as the numbers are.
-/

namespace Fraisier.Data

/-- The number that decimal digits stand for. -/
def decimalValue (digits : List Char) : Nat :=
  digits.foldl (fun n digit => 10 * n + (digit.toNat - '0'.toNat)) 0

/-- The last digits of a number. -/
def padded : Nat → Nat → List Char
  | 0, _ => []
  | width + 1, n => padded width (n / 10) ++ [Nat.digitChar (n % 10)]

/-! ## Digits -/

theorem digitChar_toNat {n : Nat} (h : n < 10) : (Nat.digitChar n).toNat - '0'.toNat = n := by
  rw [Nat.toNat_digitChar_of_lt_ten h]
  exact Nat.add_sub_cancel_left 48 n

theorem isDigit_digitChar {n : Nat} (h : n < 10) : (Nat.digitChar n).isDigit = true := by
  have hall : ∀ m : Fin 10, (Nat.digitChar m).isDigit = true := by decide
  exact hall ⟨n, h⟩

theorem digitChar_lt {m n : Nat} (hmn : m < n) (hn : n < 10) :
    Nat.digitChar m < Nat.digitChar n := by
  have hall : ∀ i j : Fin 10, i < j → Nat.digitChar i < Nat.digitChar j := by decide
  exact hall ⟨m, hmn.trans hn⟩ ⟨n, hn⟩ hmn

theorem toNat_of_isDigit {c : Char} (h : c.isDigit = true) : 48 ≤ c.toNat ∧ c.toNat ≤ 57 := by
  simpa [Char.isDigit, UInt32.le_iff_toNat_le] using h

theorem value_lt_ten {c : Char} (h : c.isDigit = true) : c.toNat - '0'.toNat < 10 := by
  have hbounds := toNat_of_isDigit h
  show c.toNat - 48 < 10
  omega

/-- A digit is the one of its value. -/
theorem digitChar_value {c : Char} (h : c.isDigit = true) :
    Nat.digitChar (c.toNat - '0'.toNat) = c := by
  have hbounds := toNat_of_isDigit h
  have hsame : (Nat.digitChar (c.toNat - '0'.toNat)).toNat = c.toNat := by
    have hvalue := digitChar_toNat (value_lt_ten h)
    have hdigit := toNat_of_isDigit (isDigit_digitChar (value_lt_ten h))
    have hzero : '0'.toNat = 48 := rfl
    omega
  exact Char.toNat_inj.mp hsame

/-! ## Reading -/

@[simp] theorem padded_length (width n : Nat) : (padded width n).length = width := by
  induction width generalizing n with
  | zero => rfl
  | succ width ih => simp [padded, ih]

theorem isDigit_of_mem_padded {width n : Nat} {c : Char} (h : c ∈ padded width n) :
    c.isDigit = true := by
  induction width generalizing n with
  | zero => cases h
  | succ width ih =>
      obtain h | h := List.mem_append.mp h
      · exact ih h
      · rw [List.mem_singleton.mp h]
        exact isDigit_digitChar (Nat.mod_lt _ (by decide))

theorem decimalValue_append (digits : List Char) (c : Char) :
    decimalValue (digits ++ [c]) = 10 * decimalValue digits + (c.toNat - '0'.toNat) := by
  simp [decimalValue, List.foldl_append]

/-- A number is read back as it was written. -/
theorem decimalValue_padded {width n : Nat} (h : n < 10 ^ width) :
    decimalValue (padded width n) = n := by
  induction width generalizing n with
  | zero =>
      have hzero : n = 0 := by simpa using h
      rw [hzero]
      rfl
  | succ width ih =>
      have hdiv : n / 10 < 10 ^ width := by
        rw [Nat.pow_succ] at h
        omega
      rw [padded, decimalValue_append, ih hdiv, digitChar_toNat (Nat.mod_lt _ (by decide))]
      omega

/-- Digits are the ones of the number they stand for. -/
theorem padded_decimalValue {digits : List Char} (h : ∀ c ∈ digits, c.isDigit = true) :
    padded digits.length (decimalValue digits) = digits := by
  induction digits using List.reverseRecOn with
  | nil => rfl
  | append_singleton digits c ih =>
      have hc := h c (by simp)
      have hlt := value_lt_ten hc
      rw [decimalValue_append, List.length_append, List.length_singleton, padded]
      have hdiv : (10 * decimalValue digits + (c.toNat - '0'.toNat)) / 10 =
          decimalValue digits := by
        omega
      have hmod : (10 * decimalValue digits + (c.toNat - '0'.toNat)) % 10 =
          c.toNat - '0'.toNat := by
        omega
      rw [hdiv, hmod, digitChar_value hc, ih fun d hd => h d (by simp [hd])]

theorem decimalValue_lt {digits : List Char} (h : ∀ c ∈ digits, c.isDigit = true) :
    decimalValue digits < 10 ^ digits.length := by
  induction digits using List.reverseRecOn with
  | nil => decide
  | append_singleton digits c ih =>
      have hlt := value_lt_ten (h c (by simp))
      have hdigits := ih fun d hd => h d (by simp [hd])
      rw [decimalValue_append, List.length_append, List.length_singleton, Nat.pow_succ]
      omega

/-- Two numbers side by side are one number. -/
theorem padded_append {width n : Nat} (m : Nat) (k : Nat) (h : n < 10 ^ width) :
    padded k m ++ padded width n = padded (k + width) (m * 10 ^ width + n) := by
  induction width generalizing n with
  | zero =>
      have hzero : n = 0 := by simpa using h
      simp [padded, hzero]
  | succ width ih =>
      have hdiv : n / 10 < 10 ^ width := by
        rw [Nat.pow_succ] at h
        omega
      have hlead : (m * 10 ^ (width + 1) + n) / 10 = m * 10 ^ width + n / 10 := by
        rw [Nat.pow_succ, ← Nat.mul_assoc]
        omega
      have hlast : (m * 10 ^ (width + 1) + n) % 10 = n % 10 := by
        rw [Nat.pow_succ, ← Nat.mul_assoc]
        omega
      rw [padded, ← List.append_assoc, ih hdiv, ← Nat.add_assoc, padded, hlead, hlast]

/-! ## Order -/

/-- Lists of one length are ordered by what comes first. -/
theorem append_lt_append {l l' : List Char} (hlength : l.length = l'.length) (h : l < l')
    (rest rest' : List Char) : l ++ rest < l' ++ rest' := by
  induction l generalizing l' with
  | nil =>
      rw [List.length_eq_zero_iff.mp hlength.symm] at h
      exact absurd h (lt_irrefl _)
  | cons c l ih =>
      cases l' with
      | nil => cases hlength
      | cons c' l' =>
          rw [List.cons_append, List.cons_append, List.cons_lt_cons_iff]
          obtain hlt | ⟨heq, hlt⟩ := List.cons_lt_cons_iff.mp h
          · exact .inl hlt
          · exact .inr ⟨heq, ih (Nat.succ.inj hlength) hlt⟩

/-- Smaller numbers come first. -/
theorem padded_lt {width m n : Nat} (hmn : m < n) (hn : n < 10 ^ width) :
    padded width m < padded width n := by
  induction width generalizing m n with
  | zero =>
      rw [Nat.pow_zero] at hn
      omega
  | succ width ih =>
      rw [Nat.pow_succ] at hn
      rw [padded, padded]
      by_cases hlead : m / 10 < n / 10
      · exact append_lt_append (by simp) (ih hlead (by omega)) _ _
      · have heq : m / 10 = n / 10 := by omega
        rw [heq]
        refine List.append_left_lt (List.cons_lt_cons_iff.mpr (.inl ?_))
        exact digitChar_lt (by omega) (Nat.mod_lt _ (by decide))

theorem padded_zero (width : Nat) : padded width 0 = List.replicate width '0' := by
  induction width with
  | zero => rfl
  | succ width ih =>
      rw [padded, ih, List.replicate_succ']
      rfl

/-- Padding the digits of a small number on the left is writing it with a fixed width. -/
theorem leftpad_toDigits {width n : Nat} (hwidth : 0 < width) (h : n < 10 ^ width) :
    (Nat.toDigits 10 n).leftpad width '0' = padded width n := by
  induction width generalizing n with
  | zero => cases hwidth
  | succ width ih =>
      rw [padded]
      by_cases hsmall : n < 10
      · rw [Nat.toDigits_of_lt_base hsmall, Nat.div_eq_of_lt hsmall, Nat.mod_eq_of_lt hsmall,
          padded_zero]
        simp [List.leftpad]
      · rw [Nat.pow_succ] at h
        have hwidth' : 0 < width := by
          by_contra hzero
          have : width = 0 := by omega
          subst this
          omega
        have hrest := ih hwidth' (n := n / 10) (by omega)
        rw [Nat.toDigits_of_base_le (by decide) (by omega)]
        rw [List.leftpad] at hrest ⊢
        rw [← hrest]
        simp
end Fraisier.Data
