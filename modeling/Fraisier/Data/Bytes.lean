import Fraisier.Data.Decimal
import Fraisier.Data.Lines
import Fraisier.Data.Percent

/-!
# Bytes that are read as text

Strict UTF-8, the lines of a byte stream, where bytes are found in others, and the numbers
that texts stand for. `fromUtf8_eq_some_iff` and `position_eq_some_iff` say what reading gives.
-/

namespace Fraisier.Data

/-! ## Strict UTF-8 -/

/-- The characters that bytes are the ones of, at most as many as the fuel is. -/
def charsFrom : Nat → List UInt8 → Option (List Char)
  | _, [] => some []
  | 0, _ :: _ => none
  | fuel + 1, byte :: rest =>
      match decodeChar (byte :: rest) with
      | some c =>
          (charsFrom fuel ((byte :: rest).drop (String.utf8EncodeChar c).length)).map (c :: ·)
      | none => none

/-- The text that bytes are the ones of. -/
def fromUtf8 (bytes : List UInt8) : Option String :=
  (charsFrom bytes.length bytes).map String.ofList

/-- A character that is read is the one the bytes begin with. -/
theorem eq_append_of_decodeChar {bytes : List UInt8} {c : Char} (h : decodeChar bytes = some c) :
    ∃ rest, bytes = String.utf8EncodeChar c ++ rest := by
  obtain ⟨rest, hrest⟩ := ByteArray.exists_of_utf8DecodeChar?_eq_some h
  refine ⟨rest.data.toList, ?_⟩
  have hdata := congrArg (fun array : ByteArray => array.data.toList) hrest
  simpa using hdata

theorem charsFrom_utf8 (chars : List Char) {fuel : Nat} (h : chars.length ≤ fuel) :
    charsFrom fuel (utf8 chars) = some chars := by
  induction chars generalizing fuel with
  | nil => cases fuel <;> rfl
  | cons c chars ih =>
      obtain ⟨fuel, rfl⟩ : ∃ n, fuel = n + 1 := ⟨fuel - 1, by rw [List.length_cons] at h; omega⟩
      obtain ⟨lead, rest, hencoded, -⟩ := exists_encoded c
      have hdecoded := decodeChar_append c (utf8 chars)
      have hdrop : (String.utf8EncodeChar c ++ utf8 chars).drop
          (String.utf8EncodeChar c).length = utf8 chars := List.drop_left
      rw [utf8_cons]
      rw [hencoded] at hdecoded hdrop ⊢
      rw [List.cons_append] at hdecoded hdrop ⊢
      rw [charsFrom, hdecoded]
      simp only [hencoded, hdrop, ih (Nat.succ_le_succ_iff.mp h), Option.map_some]

theorem eq_utf8_of_charsFrom {fuel : Nat} {bytes : List UInt8} {chars : List Char}
    (h : charsFrom fuel bytes = some chars) : bytes = utf8 chars := by
  induction fuel generalizing bytes chars with
  | zero =>
      cases bytes with
      | nil =>
          cases h
          rfl
      | cons byte rest => cases h
  | succ fuel ih =>
      cases bytes with
      | nil =>
          cases h
          rfl
      | cons byte rest =>
          rw [charsFrom] at h
          cases hdecoded : decodeChar (byte :: rest) with
          | none =>
              rw [hdecoded] at h
              cases h
          | some c =>
              rw [hdecoded] at h
              obtain ⟨chars, hchars, rfl⟩ := Option.map_eq_some_iff.mp h
              obtain ⟨behind, hbytes⟩ := eq_append_of_decodeChar hdecoded
              rw [hbytes, List.drop_left] at hchars
              rw [hbytes, utf8_cons, ih hchars]

/-- Bytes are read as a text if they are the ones of it. -/
theorem fromUtf8_eq_some_iff {bytes : List UInt8} {text : String} :
    fromUtf8 bytes = some text ↔ bytes = utf8 text.toList := by
  rw [fromUtf8, Option.map_eq_some_iff]
  constructor
  · rintro ⟨chars, hchars, rfl⟩
    rw [String.toList_ofList]
    exact eq_utf8_of_charsFrom hchars
  · rintro rfl
    exact ⟨text.toList, charsFrom_utf8 _ (length_le_utf8 _), String.ofList_toList⟩

@[simp] theorem fromUtf8_utf8 (text : String) : fromUtf8 (utf8 text.toList) = some text :=
  fromUtf8_eq_some_iff.mpr rfl

theorem utf8_injective {chars chars' : List Char} (h : utf8 chars = utf8 chars') :
    chars = chars' := by
  have hread := charsFrom_utf8 chars (length_le_utf8 chars)
  rw [h, charsFrom_utf8 chars' (h ▸ length_le_utf8 chars')] at hread
  exact (Option.some.inj hread).symm

/-- An ASCII byte stands for its character only. -/
theorem utf8_eq_append_ascii {chars : List Char} {c : Char} (hc : c.toNat < 128)
    {front rest : List UInt8} (h : utf8 chars = front ++ c.toUInt8 :: rest) :
    ∃ before after, chars = before ++ c :: after ∧ utf8 before = front ∧ utf8 after = rest := by
  have hbyte : c.toUInt8 < 0x80 := by
    rw [UInt8.lt_iff_toNat_lt]
    exact (toNat_ascii hc).trans_lt hc
  have hboundary : isBoundary (utf8 chars) front.length = true := by
    have hcontinues : isContinuation c.toUInt8 = false := by
      rw [isContinuation, Bool.and_eq_false_iff]
      exact .inl (decide_eq_false (UInt8.not_le.mpr hbyte))
    simp [isBoundary, h, hcontinues]
  obtain ⟨before, after, rfl, hlength⟩ := isBoundary_iff.mp hboundary
  rw [utf8_append] at h
  obtain ⟨hfront, hafter⟩ := List.append_inj h hlength
  cases after with
  | nil => cases hafter
  | cons d after =>
      obtain ⟨lead, behind, hencoded, -, -, honly⟩ := exists_encoded d
      rw [utf8_cons, hencoded, List.cons_append] at hafter
      obtain ⟨hlead, hrest⟩ := List.cons.inj hafter
      have hbehind : behind = [] := honly (hlead ▸ hbyte)
      have hdc : [d] = [c] := by
        refine utf8_injective ?_
        rw [utf8_cons, utf8_cons, hencoded, hbehind, hlead, utf8EncodeChar_ascii hc]
        rfl
      rw [hbehind, List.nil_append] at hrest
      exact ⟨before, after, by rw [(List.cons.inj hdc).1], hfront, hrest⟩

theorem ascii_mem_utf8 {chars : List Char} {c : Char} (hc : c.toNat < 128) :
    c.toUInt8 ∈ utf8 chars ↔ c ∈ chars := by
  constructor
  · intro h
    obtain ⟨front, rest, hsplit⟩ := List.append_of_mem h
    obtain ⟨before, after, rfl, -⟩ := utf8_eq_append_ascii hc hsplit
    exact List.mem_append_right _ List.mem_cons_self
  · intro h
    refine List.mem_flatMap.mpr ⟨c, h, ?_⟩
    rw [utf8EncodeChar_ascii hc]
    exact List.mem_singleton_self _

/-! ## The lines of a stream -/

/-- The lines of bytes, each with the newline that ends it. -/
def linesInclusive : List UInt8 → List (List UInt8)
  | [] => []
  | byte :: rest =>
      if byte = '\n'.toUInt8 then [byte] :: linesInclusive rest
      else
        match linesInclusive rest with
        | [] => [[byte]]
        | line :: lines => (byte :: line) :: lines

@[simp] theorem flatten_linesInclusive (bytes : List UInt8) :
    (linesInclusive bytes).flatten = bytes := by
  induction bytes with
  | nil => rfl
  | cons byte rest ih =>
      rw [linesInclusive]
      split
      · rw [List.flatten_cons, ih, List.singleton_append]
      · split
        next hlines =>
          rw [hlines] at ih
          rw [← ih]
          rfl
        next line lines hlines =>
          rw [hlines] at ih
          rw [List.flatten_cons, List.cons_append, ← List.flatten_cons, ih]

/-- A line ends at the first newline. -/
theorem linesInclusive_newline {line : List UInt8} (hline : '\n'.toUInt8 ∉ line)
    (rest : List UInt8) : linesInclusive (line ++ '\n'.toUInt8 :: rest) =
      (line ++ ['\n'.toUInt8]) :: linesInclusive rest := by
  induction line with
  | nil => rw [List.nil_append, linesInclusive, if_pos rfl, List.nil_append]
  | cons byte line ih =>
      obtain ⟨hbyte, hline⟩ := not_or.mp (List.mem_cons.not.mp hline)
      rw [List.cons_append, linesInclusive, if_neg (Ne.symm hbyte), ih hline]
      rfl

/-- Bytes without a newline are one line, unless there are none. -/
theorem linesInclusive_single {line : List UInt8} (hne : line ≠ [])
    (hline : '\n'.toUInt8 ∉ line) : linesInclusive line = [line] := by
  induction line with
  | nil => exact absurd rfl hne
  | cons byte line ih =>
      obtain ⟨hbyte, hline⟩ := not_or.mp (List.mem_cons.not.mp hline)
      rw [linesInclusive, if_neg (Ne.symm hbyte)]
      cases line with
      | nil => rfl
      | cons next line => rw [ih (List.cons_ne_nil _ _) hline]

/-- The first line of bytes: up to the first newline, or all of them. -/
theorem linesInclusive_cases {bytes line : List UInt8} {lines : List (List UInt8)}
    (h : linesInclusive bytes = line :: lines) :
    (∃ front, line = front ++ ['\n'.toUInt8] ∧ '\n'.toUInt8 ∉ front ∧
        lines = linesInclusive lines.flatten) ∨
      line ≠ [] ∧ '\n'.toUInt8 ∉ line ∧ lines = [] := by
  induction bytes generalizing line lines with
  | nil => cases h
  | cons byte rest ih =>
      rw [linesInclusive] at h
      split at h
      next hbyte =>
        obtain ⟨rfl, rfl⟩ := List.cons.inj h
        refine .inl ⟨[], by rw [hbyte]; rfl, List.not_mem_nil, ?_⟩
        rw [flatten_linesInclusive]
      next hbyte =>
        split at h
        next hlines =>
          obtain ⟨rfl, rfl⟩ := List.cons.inj h
          exact .inr ⟨List.cons_ne_nil _ _, by simpa using Ne.symm hbyte, rfl⟩
        next first lines' hlines =>
          obtain ⟨rfl, rfl⟩ := List.cons.inj h
          obtain ⟨front, rfl, hfront, hrest⟩ | ⟨hne, hfirst, hrest⟩ := ih hlines
          · refine .inl ⟨byte :: front, rfl, ?_, hrest⟩
            exact List.mem_cons.not.mpr (not_or.mpr ⟨Ne.symm hbyte, hfront⟩)
          · refine .inr ⟨List.cons_ne_nil _ _, ?_, hrest⟩
            exact List.mem_cons.not.mpr (not_or.mpr ⟨Ne.symm hbyte, hfirst⟩)

/-! ## The lines of a text -/

/-- What no newline ends is one line. -/
theorem linesFrom_last {word text : List Char} (hne : word.reverse ++ text ≠ [])
    (hnewline : '\n' ∉ text) : linesFrom word text = [String.ofList (word.reverse ++ text)] := by
  induction text generalizing word with
  | nil =>
      rw [List.append_nil] at hne ⊢
      rw [linesFrom, if_neg (by simpa using hne)]
  | cons c text ih =>
      obtain ⟨hc, htext⟩ := not_or.mp (List.mem_cons.not.mp hnewline)
      have hword : (c :: word).reverse ++ text = word.reverse ++ c :: text := by simp
      have hstep : linesFrom word (c :: text) = linesFrom (c :: word) text := by
        rw [linesFrom]
        exact fun h => hc h.symm
      rw [hstep, ih (hword ▸ hne) htext, hword]

theorem withoutReturn_append {line : String} :
    withoutReturn (line ++ "\r") = line := by
  have hchars : (line ++ "\r").toList = line.toList ++ ['\r'] := String.toList_append
  rw [withoutReturn, hchars, List.getLast?_concat, if_pos rfl, List.dropLast_concat,
    String.ofList_toList]

theorem dropWhile_eq_self {α : Type} {p : α → Bool} {l : List α} (h : ∀ a ∈ l, p a = false) :
    l.dropWhile p = l := by
  cases l with
  | nil => rfl
  | cons a l => exact List.dropWhile_cons_of_neg (by simp [h a List.mem_cons_self])

/-- Whitespace in front of visible characters is cut off. -/
theorem trim_of_visible {gap text : List Char} (hgap : ∀ c ∈ gap, isWhitespace c = true)
    (htext : ∀ c ∈ text, isWhitespace c = false) :
    trim (String.ofList (gap ++ text)) = String.ofList text := by
  have hreverse : ∀ c ∈ text.reverse, isWhitespace c = false := fun c hc =>
    htext c (List.mem_reverse.mp hc)
  rw [trim, String.toList_ofList, List.dropWhile_append_of_pos hgap, dropWhile_eq_self htext,
    dropWhile_eq_self hreverse, List.reverse_reverse]

/-! ## Bytes in bytes -/

/-- Where bytes are found first in others. -/
def position (needle : List UInt8) : List UInt8 → Option Nat
  | [] => none
  | byte :: rest =>
      if needle.isPrefixOf (byte :: rest) then some 0
      else (position needle rest).map (· + 1)

theorem position_eq_some_iff {needle bytes : List UInt8} {n : Nat} (hneedle : needle ≠ []) :
    position needle bytes = some n ↔
      needle <+: bytes.drop n ∧ ∀ m < n, ¬ needle <+: bytes.drop m := by
  induction bytes generalizing n with
  | nil => simp [position, hneedle]
  | cons byte rest ih =>
      rw [position]
      split
      next hprefix =>
        have hhere : needle <+: byte :: rest := List.isPrefixOf_iff_prefix.mp hprefix
        constructor
        · intro h
          cases h
          exact ⟨hhere, fun m hm => absurd hm (Nat.not_lt_zero m)⟩
        · rintro ⟨-, hfirst⟩
          cases n with
          | zero => rfl
          | succ n => exact absurd hhere (hfirst 0 (Nat.succ_pos n))
      next hprefix =>
        have hhere : ¬ needle <+: byte :: rest := fun h =>
          hprefix (List.isPrefixOf_iff_prefix.mpr h)
        cases n with
        | zero => simp [hhere]
        | succ n =>
            rw [Option.map_eq_some_iff]
            simp only [Nat.succ.injEq, exists_eq_right, ih, List.drop_succ_cons]
            refine and_congr_right fun _ => ⟨fun h m hm => ?_, fun h m hm => ?_⟩
            · cases m with
              | zero => exact hhere
              | succ m => exact h m (Nat.lt_of_succ_lt_succ hm)
            · exact h (m + 1) (Nat.succ_lt_succ hm)

theorem drop_prefix_append {front : List UInt8} {m : Nat} (hm : m ≤ front.length)
    (rest : List UInt8) : front.drop m <+: (front ++ rest).drop m := by
  rw [List.drop_append_of_le_length hm]
  exact List.prefix_append _ _

theorem le_of_prefix_drop {needle bytes : List UInt8} {m : Nat} (hneedle : needle ≠ [])
    (h : needle <+: bytes.drop m) : m + needle.length ≤ bytes.length := by
  have hlength := h.length_le
  have hpos := List.length_pos_of_ne_nil hneedle
  rw [List.length_drop] at hlength
  omega

/-- What is found in bytes is found in the front of them that has all of it. -/
theorem position_front {needle front rest : List UInt8} {n : Nat} (hneedle : needle ≠ [])
    (h : position needle (front ++ rest) = some n) : position needle front =
      if n + needle.length ≤ front.length then some n else none := by
  obtain ⟨hfound, hfirst⟩ := (position_eq_some_iff hneedle).mp h
  split
  next hle =>
    refine (position_eq_some_iff hneedle).mpr ⟨?_, fun m hm hmem => hfirst m hm ?_⟩
    · refine List.prefix_of_prefix_length_le hfound (drop_prefix_append (by omega) rest) ?_
      rw [List.length_drop]
      omega
    · exact hmem.trans (drop_prefix_append (by omega) rest)
  next hlt =>
    cases hposition : position needle front with
    | none => rfl
    | some m =>
        obtain ⟨hmem, -⟩ := (position_eq_some_iff hneedle).mp hposition
        have hle := le_of_prefix_drop hneedle hmem
        exact absurd (hmem.trans (drop_prefix_append (by omega) rest)) (hfirst m (by omega))

/-- What is not found in bytes is not found in their front. -/
theorem position_front_none {needle front rest : List UInt8} (hneedle : needle ≠ [])
    (h : position needle (front ++ rest) = none) : position needle front = none := by
  cases hposition : position needle front with
  | none => rfl
  | some m =>
      obtain ⟨hmem, hfirst⟩ := (position_eq_some_iff hneedle).mp hposition
      have hle := le_of_prefix_drop hneedle hmem
      have hthere : position needle (front ++ rest) = some m := by
        refine (position_eq_some_iff hneedle).mpr
          ⟨hmem.trans (drop_prefix_append (by omega) rest), fun k hk hfound => hfirst k hk ?_⟩
        refine List.prefix_of_prefix_length_le hfound (drop_prefix_append (by omega) rest) ?_
        rw [List.length_drop]
        omega
      rw [h] at hthere
      cases hthere

/-- Nothing that is looked for begins before a byte that it begins with. -/
theorem position_append {head : UInt8} {needle before : List UInt8} (h : head ∉ before)
    (rest : List UInt8) : position (head :: needle) (before ++ rest) =
      (position (head :: needle) rest).map (before.length + ·) := by
  induction before with
  | nil => simp
  | cons byte before ih =>
      obtain ⟨hbyte, hbefore⟩ := not_or.mp (List.mem_cons.not.mp h)
      have hprefix : ¬ (head :: needle).isPrefixOf (byte :: (before ++ rest)) = true := by
        rw [List.isPrefixOf_iff_prefix, List.cons_prefix_cons]
        exact fun hboth => hbyte hboth.1
      rw [List.cons_append, position, if_neg hprefix, ih hbefore, Option.map_map]
      congr 1
      funext n
      simp only [Function.comp_apply, List.length_cons]
      omega

/-! ## Numbers -/

/-- A number below a bound, as the standard library reads it. -/
def parseUnsigned (bound : Nat) (text : String) : Option Nat :=
  let digits := if text.toList.head? = some '+' then text.toList.tail else text.toList
  if digits.isEmpty || !digits.all Char.isDigit then none
  else
    let value := Nat.ofDigitChars 10 digits 0
    if value < bound then some value else none

/-- A number is read from the text it is written as. -/
theorem parseUnsigned_toString {bound n : Nat} (h : n < bound) :
    parseUnsigned bound (toString n) = some n := by
  have hdigits : ∀ c ∈ Nat.toDigits 10 n, c.isDigit = true := fun c hc =>
    Nat.isDigit_of_mem_toDigits (by decide) (by decide) hc
  have hhead : (Nat.toDigits 10 n).head? ≠ some '+' := fun hplus =>
    absurd (hdigits '+' (List.mem_of_head? hplus)) (by decide)
  have hall : (Nat.toDigits 10 n).all Char.isDigit = true := List.all_eq_true.mpr hdigits
  have hempty : (Nat.toDigits 10 n).isEmpty = false := by
    rw [List.isEmpty_eq_false_iff]
    exact Nat.toDigits_ne_nil
  rw [parseUnsigned, Nat.toString_eq_ofList_toDigits, String.toList_ofList, if_neg hhead]
  simp [hempty, hall, Nat.ofDigitChars_ten_toDigits, h]

end Fraisier.Data
