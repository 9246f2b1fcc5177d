import Fraisier.Data.Json
import Fraisier.Data.Text

/-!
# JSON documents as texts

`Json.render` writes a document without blanks, `Json.parse` reads a text. A string is escaped
where it has to be, an integer is written in decimal, and a float is kept by its digits, which
stand for it unrounded. The fields of an object stand in the order of the list. The reader goes
down so many levels and no further.

`parse_render` says that a document the reader can take is read from what is written.
-/

namespace Fraisier.Data.Json

/-! ## Writing -/

/-- A half of a byte as a digit. -/
def hexDigit (n : Nat) : Char :=
  Nat.digitChar (n % 16)

/-- A character inside a string. -/
def escapeChar (c : Char) : List Char :=
  if c = '"' then ['\\', '"']
  else if c = '\\' then ['\\', '\\']
  else if c = '\n' then ['\\', 'n']
  else if c = '\r' then ['\\', 'r']
  else if c = '\t' then ['\\', 't']
  else if c.toNat = 8 then ['\\', 'b']
  else if c.toNat = 12 then ['\\', 'f']
  else if c.toNat < 32 then ['\\', 'u', '0', '0', hexDigit (c.toNat / 16), hexDigit c.toNat]
  else [c]

/-- A string in quotes. -/
def quoted (text : String) : List Char :=
  '"' :: text.toList.flatMap escapeChar ++ ['"']

mutual
/-- A document as a text. -/
def render : Json → List Char
  | .null => ['n', 'u', 'l', 'l']
  | .bool true => ['t', 'r', 'u', 'e']
  | .bool false => ['f', 'a', 'l', 's', 'e']
  | .int n => (toString n).toList
  | .float digits => digits.toList
  | .str s => quoted s
  | .arr items => '[' :: renderItems items ++ [']']
  | .obj fields => '{' :: renderFields fields ++ ['}']

/-- The items of an array, with commas between them. -/
def renderItems : List Json → List Char
  | [] => []
  | [v] => render v
  | v :: w :: rest => render v ++ ',' :: renderItems (w :: rest)

/-- The fields of an object, with commas between them. -/
def renderFields : List (String × Json) → List Char
  | [] => []
  | [(name, v)] => quoted name ++ ':' :: render v
  | (name, v) :: field :: rest =>
      quoted name ++ ':' :: render v ++ ',' :: renderFields (field :: rest)
end

/-! ## Reading strings -/

/-- A text without the blanks it begins with. -/
def skipBlanks (text : List Char) : List Char :=
  text.dropWhile fun c => c = ' ' || c = '\n' || c = '\t' || c = '\r'

/-- The number that a digit stands for. -/
def hexValue (c : Char) : Option Nat :=
  if c.isDigit then some (c.toNat - 48)
  else if 97 ≤ c.toNat ∧ c.toNat ≤ 102 then some (c.toNat - 87)
  else if 65 ≤ c.toNat ∧ c.toNat ≤ 70 then some (c.toNat - 55)
  else none

/-- The number that four digits stand for, and what follows them. -/
def readHex : List Char → Option (Nat × List Char)
  | a :: b :: c :: d :: rest => do
      let a ← hexValue a
      let b ← hexValue b
      let c ← hexValue c
      let d ← hexValue d
      return (((a * 16 + b) * 16 + c) * 16 + d, rest)
  | _ => none

/-- The character of a number, or of that and the second one of a pair. -/
def readCodePoint (n : Nat) (text : List Char) : Option (Char × List Char) :=
  if 0xD800 ≤ n ∧ n < 0xDC00 then
    match text with
    | '\\' :: 'u' :: rest => do
        let (low, rest) ← readHex rest
        if 0xDC00 ≤ low ∧ low < 0xE000 then
          return (Char.ofNat (0x10000 + (n - 0xD800) * 0x400 + (low - 0xDC00)), rest)
        else none
    | _ => none
  else if 0xDC00 ≤ n ∧ n < 0xE000 then none
  else some (Char.ofNat n, text)

/-- What an escape stands for, without its backslash. -/
def readEscape : List Char → Option (Char × List Char)
  | '"' :: rest => some ('"', rest)
  | '\\' :: rest => some ('\\', rest)
  | '/' :: rest => some ('/', rest)
  | 'b' :: rest => some (Char.ofNat 8, rest)
  | 'f' :: rest => some (Char.ofNat 12, rest)
  | 'n' :: rest => some ('\n', rest)
  | 'r' :: rest => some ('\r', rest)
  | 't' :: rest => some ('\t', rest)
  | 'u' :: rest => (readHex rest).bind fun (n, rest) => readCodePoint n rest
  | _ => none

/-- The characters up to the closing quote, at most so many of them. -/
def readString : Nat → List Char → Option (List Char × List Char)
  | _, '"' :: rest => some ([], rest)
  | fuel + 1, '\\' :: rest => do
      let (c, rest) ← readEscape rest
      let (chars, rest) ← readString fuel rest
      return (c :: chars, rest)
  | fuel + 1, c :: rest =>
      if c.toNat < 32 then none
      else do
        let (chars, rest) ← readString fuel rest
        return (c :: chars, rest)
  | _, _ => none

/-! ## Reading numbers -/

/-- Some digits, and what follows them. -/
def readDigits (text : List Char) : Option (List Char × List Char) :=
  let digits := text.takeWhile Char.isDigit
  if digits.isEmpty then none else some (digits, text.dropWhile Char.isDigit)

/-- The part of a number before its point: no zero is first but a single one. -/
def readWhole : List Char → Option (List Char × List Char)
  | '0' :: rest => if rest.head?.any Char.isDigit then none else some (['0'], rest)
  | text => readDigits text

/-- The fraction of a number, if it has one. -/
def readFraction : List Char → Option (List Char × List Char)
  | '.' :: rest => (readDigits rest).map fun (digits, rest) => ('.' :: digits, rest)
  | text => some ([], text)

/-- The exponent of a number, if it has one. -/
def readExponent : List Char → Option (List Char × List Char)
  | c :: rest =>
      if c = 'e' ∨ c = 'E' then
        match rest with
        | sign :: rest =>
            if sign = '+' ∨ sign = '-' then
              (readDigits rest).map fun (digits, rest) => (c :: sign :: digits, rest)
            else (readDigits (sign :: rest)).map fun (digits, rest) => (c :: digits, rest)
        | [] => none
      else some ([], c :: rest)
  | [] => some ([], [])

/-- What a number stands for: an integer if it has neither fraction nor exponent and is in range,
else a float. The negative zero is a float. -/
def numberOf (negative : Bool) (whole tail : List Char) : Json :=
  let n := Nat.ofDigitChars 10 whole 0
  let digits := String.ofList ((if negative then ['-'] else []) ++ whole ++ tail)
  if tail.isEmpty then
    if negative then
      if 0 < n ∧ n ≤ 9223372036854775808 then .int (-n) else .float digits
    else if n < 18446744073709551616 then .int n
    else .float digits
  else .float digits

/-- A number without its sign. -/
def readUnsigned (negative : Bool) (text : List Char) : Option (Json × List Char) := do
  let (whole, rest) ← readWhole text
  let (fraction, rest) ← readFraction rest
  let (exponent, rest) ← readExponent rest
  return (numberOf negative whole (fraction ++ exponent), rest)

/-- A number. -/
def readNumber : List Char → Option (Json × List Char)
  | '-' :: rest => readUnsigned true rest
  | text => readUnsigned false text

/-! ## Reading documents -/

/-- What follows a word that stands for a document. -/
def readWord (word : List Char) (value : Json) (text : List Char) : Option (Json × List Char) :=
  if word.isPrefixOf text then some (value, text.drop word.length) else none

/-- The items of an array up to its bracket, at most so many of them. -/
def readItems (read : List Char → Option (Json × List Char)) :
    Nat → List Char → Option (List Json × List Char)
  | 0, _ => none
  | fuel + 1, text => do
      let (v, rest) ← read text
      match skipBlanks rest with
      | ',' :: rest =>
          let (items, rest) ← readItems read fuel rest
          return (v :: items, rest)
      | ']' :: rest => return ([v], rest)
      | _ => none

/-- One field of an object. -/
def readField (read : List Char → Option (Json × List Char)) (text : List Char) :
    Option ((String × Json) × List Char) :=
  match skipBlanks text with
  | '"' :: rest => do
      let (name, rest) ← readString rest.length rest
      match skipBlanks rest with
      | ':' :: rest =>
          let (v, rest) ← read rest
          return ((String.ofList name, v), rest)
      | _ => none
  | _ => none

/-- The fields of an object up to its brace, at most so many of them. -/
def readFields (read : List Char → Option (Json × List Char)) :
    Nat → List Char → Option (List (String × Json) × List Char)
  | 0, _ => none
  | fuel + 1, text => do
      let (field, rest) ← readField read text
      match skipBlanks rest with
      | ',' :: rest =>
          let (fields, rest) ← readFields read fuel rest
          return (field :: fields, rest)
      | '}' :: rest => return ([field], rest)
      | _ => none

/-- A document, with at most so many arrays and objects around each part of it. -/
def readValue (depth : Nat) (text : List Char) : Option (Json × List Char) :=
  match skipBlanks text with
  | '"' :: rest => (readString rest.length rest).map fun (s, rest) => (.str (String.ofList s), rest)
  | '[' :: rest =>
      match depth with
      | 0 => none
      | depth + 1 =>
          match skipBlanks rest with
          | ']' :: rest => some (.arr [], rest)
          | _ => (readItems (readValue depth) rest.length rest).map fun (items, rest) =>
              (.arr items, rest)
  | '{' :: rest =>
      match depth with
      | 0 => none
      | depth + 1 =>
          match skipBlanks rest with
          | '}' :: rest => some (.obj [], rest)
          | _ => (readFields (readValue depth) rest.length rest).map fun (fields, rest) =>
              (.obj fields, rest)
  | 'n' :: rest => readWord ['n', 'u', 'l', 'l'] .null ('n' :: rest)
  | 't' :: rest => readWord ['t', 'r', 'u', 'e'] (.bool true) ('t' :: rest)
  | 'f' :: rest => readWord ['f', 'a', 'l', 's', 'e'] (.bool false) ('f' :: rest)
  | text => readNumber text

/-- How many arrays and objects may stand around a part of a document. -/
def maxDepth : Nat := 127

/-- The document that a text is, with nothing but blanks around it. -/
def parse (text : String) : Option Json :=
  match readValue maxDepth text.toList with
  | some (v, rest) => if (skipBlanks rest).isEmpty then some v else none
  | none => none

/-! ## Documents that are read back -/

/-- No number goes on with a text. -/
def Stops (text : List Char) : Prop :=
  ∀ c ∈ text.head?, c.isDigit = false ∧ c ≠ '.' ∧ c ≠ 'e' ∧ c ≠ 'E'

/-- Digits that are read as a float which is kept by them. -/
def isFloat (digits : String) : Bool :=
  match readNumber digits.toList with
  | some (.float kept, []) => kept == digits
  | _ => false

/-- A document with at most so many arrays and objects around each part of it, whose numbers are
in range. -/
inductive Readable : Nat → Json → Prop
  | null (depth) : Readable depth .null
  | bool (depth b) : Readable depth (.bool b)
  | int (depth n) : -9223372036854775808 ≤ n → n < 18446744073709551616 → Readable depth (.int n)
  | float (depth digits) : isFloat digits = true → Readable depth (.float digits)
  | str (depth s) : Readable depth (.str s)
  | arr (depth items) : (∀ v ∈ items, Readable depth v) → Readable (depth + 1) (.arr items)
  | obj (depth fields) : (∀ field ∈ fields, Readable depth field.2) →
      Readable (depth + 1) (.obj fields)

/-! ### Blanks -/

theorem skipBlanks_cons {c : Char} {text : List Char}
    (h : c ≠ ' ' ∧ c ≠ '\n' ∧ c ≠ '\t' ∧ c ≠ '\r') : skipBlanks (c :: text) = c :: text := by
  rw [skipBlanks, List.dropWhile_cons_of_neg]
  simp [h]

/-! ### Strings -/

section Strings

variable {c : Char} {rest : List Char}

theorem hexValue_hexDigit : ∀ n < 16, hexValue (hexDigit n) = some n := by
  decide

theorem readHex_control (h : c.toNat < 32) :
    readHex ('0' :: '0' :: hexDigit (c.toNat / 16) :: hexDigit c.toNat :: rest) =
      some (c.toNat, rest) := by
  have hhigh : hexValue (hexDigit (c.toNat / 16)) = some (c.toNat / 16) :=
    hexValue_hexDigit _ (by omega)
  have hlow : hexValue (hexDigit c.toNat) = some (c.toNat % 16) := by
    have hmod := hexValue_hexDigit (c.toNat % 16) (by omega)
    rwa [hexDigit, Nat.mod_mod] at hmod
  have hzero : hexValue '0' = some 0 := by decide
  have hvalue : ((0 * 16 + 0) * 16 + c.toNat / 16) * 16 + c.toNat % 16 = c.toNat := by omega
  simp only [readHex, hhigh, hlow, hzero, Option.bind_eq_bind, Option.bind_some, hvalue]
  rfl

/-- An escaped character is read back. -/
theorem readString_escapeChar (fuel : Nat) (c : Char) (rest : List Char) :
    readString (fuel + 1) (escapeChar c ++ rest) =
      (readString fuel rest).map fun (chars, rest) => (c :: chars, rest) := by
  have hescape : ∀ text, readEscape text = some (c, rest) →
      readString (fuel + 1) ('\\' :: text) =
        (readString fuel rest).map fun (chars, rest) => (c :: chars, rest) := by
    intro text h
    simp only [readString, h, Option.bind_eq_bind, Option.bind_some]
    cases readString fuel rest <;> rfl
  rw [escapeChar]
  split_ifs with hquote hslash hnewline hreturn htab hback hfeed hcontrol
  · exact hescape _ (by rw [hquote]; rfl)
  · exact hescape _ (by rw [hslash]; rfl)
  · exact hescape _ (by rw [hnewline]; rfl)
  · exact hescape _ (by rw [hreturn]; rfl)
  · exact hescape _ (by rw [htab]; rfl)
  · refine hescape _ ?_
    rw [← Char.ofNat_toNat c, hback]
    rfl
  · refine hescape _ ?_
    rw [← Char.ofNat_toNat c, hfeed]
    rfl
  · refine hescape _ ?_
    have hhigh : ¬(0xD800 ≤ c.toNat ∧ c.toNat < 0xDC00) := by omega
    have hlow : ¬(0xDC00 ≤ c.toNat ∧ c.toNat < 0xE000) := by omega
    show ((readHex ('0' :: '0' :: hexDigit (c.toNat / 16) :: hexDigit c.toNat :: rest)).bind
      fun (n, rest) => readCodePoint n rest) = some (c, rest)
    rw [readHex_control hcontrol]
    show readCodePoint c.toNat rest = some (c, rest)
    unfold readCodePoint
    rw [if_neg hhigh, if_neg hlow, Char.ofNat_toNat]
  · have hread : readString (fuel + 1) (c :: rest) = do
        let (chars, rest) ← readString fuel rest
        return (c :: chars, rest) := by
      rw [readString.eq_3]
      · rw [if_neg hcontrol]
      · exact hquote
      · exact hslash
    rw [List.singleton_append, hread]
    cases readString fuel rest <;> rfl

theorem escapeChar_ne_nil (c : Char) : escapeChar c ≠ [] := by
  rw [escapeChar]
  split_ifs <;> exact List.cons_ne_nil _ _

theorem length_le_escaped (text : List Char) : text.length ≤ (text.flatMap escapeChar).length := by
  induction text with
  | nil => exact Nat.le_refl 0
  | cons c text ih =>
      have hpos := List.length_pos_of_ne_nil (escapeChar_ne_nil c)
      rw [List.flatMap_cons, List.length_append, List.length_cons]
      omega

/-- What stands between quotes is read back. -/
theorem readString_escaped {fuel : Nat} {text : List Char} (h : text.length ≤ fuel)
    (rest : List Char) :
    readString fuel (text.flatMap escapeChar ++ '"' :: rest) = some (text, rest) := by
  induction text generalizing fuel with
  | nil => cases fuel <;> rfl
  | cons c text ih =>
      obtain ⟨fuel, rfl⟩ : ∃ n, fuel = n + 1 := Nat.exists_eq_add_one.mpr (by
        rw [List.length_cons] at h
        omega)
      rw [List.flatMap_cons, List.append_assoc, readString_escapeChar,
        ih (Nat.le_of_succ_le_succ h)]
      rfl

/-- A string is read back from its quotes on. -/
theorem readString_quoted (s : String) (rest : List Char) :
    let text := s.toList.flatMap escapeChar ++ '"' :: rest
    readString text.length text = some (s.toList, rest) := by
  refine readString_escaped ?_ rest
  have hle := length_le_escaped s.toList
  rw [List.length_append]
  omega

end Strings

/-! ### Numbers -/

section Numbers

variable {text more rest digits : List Char}

theorem Stops.nil : Stops [] := fun c hc => by cases hc

theorem Stops.cons {c : Char} (h : c.isDigit = false ∧ c ≠ '.' ∧ c ≠ 'e' ∧ c ≠ 'E') :
    Stops (c :: text) := by
  intro d hd
  obtain rfl : c = d := by simpa using hd
  exact h

/-- Digits that end where a number stops are the same with what follows. -/
theorem readDigits_append (h : readDigits text = some (digits, rest)) (hmore : Stops more) :
    readDigits (text ++ more) = some (digits, rest ++ more) := by
  have hspan : (text ++ more).takeWhile Char.isDigit = text.takeWhile Char.isDigit ∧
      (text ++ more).dropWhile Char.isDigit = text.dropWhile Char.isDigit ++ more := by
    clear h
    induction text with
    | nil =>
        cases more with
        | nil => exact ⟨rfl, rfl⟩
        | cons c more =>
            have hc := (hmore c rfl).1
            simp [hc]
    | cons c text ih =>
        by_cases hc : c.isDigit = true
        · simp [hc, ih]
        · simp [hc]
  simp only [readDigits] at h ⊢
  rw [hspan.1, hspan.2]
  split at h
  · cases h
  next hne =>
    obtain ⟨rfl, rfl⟩ := Prod.mk.inj (Option.some.inj h)
    rw [if_neg hne]

theorem readWhole_append (h : readWhole text = some (digits, rest)) (hmore : Stops more) :
    readWhole (text ++ more) = some (digits, rest ++ more) := by
  by_cases hzero : ∃ tail, text = '0' :: tail
  · obtain ⟨tail, rfl⟩ := hzero
    have hhead : (tail ++ more).head?.any Char.isDigit = tail.head?.any Char.isDigit := by
      cases tail with
      | cons c tail => rfl
      | nil =>
          cases more with
          | nil => rfl
          | cons c more => exact (hmore c rfl).1
    simp only [List.cons_append, readWhole] at h ⊢
    rw [hhead]
    split at h
    · cases h
    next hne =>
      obtain ⟨rfl, rfl⟩ := Prod.mk.inj (Option.some.inj h)
      rw [if_neg hne]
  · have hread : ∀ text : List Char, (¬∃ tail, text = '0' :: tail) →
        readWhole text = readDigits text := by
      intro text hne
      unfold readWhole
      split
      · exact absurd ⟨_, rfl⟩ hne
      · rfl
    rw [hread text hzero] at h
    rw [hread _ ?_]
    · exact readDigits_append h hmore
    · rintro ⟨tail, htail⟩
      cases text with
      | nil => simp [readDigits] at h
      | cons c text =>
          obtain ⟨rfl, -⟩ := List.cons.inj htail
          exact hzero ⟨text, rfl⟩

theorem readFraction_append (h : readFraction text = some (digits, rest)) (hmore : Stops more) :
    readFraction (text ++ more) = some (digits, rest ++ more) := by
  by_cases hpoint : ∃ tail, text = '.' :: tail
  · obtain ⟨tail, rfl⟩ := hpoint
    obtain ⟨⟨found, left⟩, hdigits, heq⟩ := Option.map_eq_some_iff.mp h
    obtain ⟨rfl, rfl⟩ := Prod.mk.inj heq
    rw [List.cons_append, readFraction, readDigits_append hdigits hmore]
    rfl
  · have hread : ∀ text : List Char, (¬∃ tail, text = '.' :: tail) →
        readFraction text = some ([], text) := by
      intro text hne
      unfold readFraction
      split
      · exact absurd ⟨_, rfl⟩ hne
      · rfl
    rw [hread text hpoint] at h
    obtain ⟨rfl, rfl⟩ := Prod.mk.inj (Option.some.inj h)
    refine hread _ ?_
    rintro ⟨tail, htail⟩
    cases text with
    | nil => exact (hmore '.' (by rw [← List.nil_append more, htail]; rfl)).2.1 rfl
    | cons c text =>
        obtain ⟨rfl, -⟩ := List.cons.inj htail
        exact hpoint ⟨text, rfl⟩

theorem readExponent_append (h : readExponent text = some (digits, rest)) (hmore : Stops more) :
    readExponent (text ++ more) = some (digits, rest ++ more) := by
  cases text with
  | nil =>
      obtain ⟨rfl, rfl⟩ := Prod.mk.inj (Option.some.inj h)
      cases more with
      | nil => rfl
      | cons c more =>
          have hc := hmore c rfl
          simp [readExponent, hc.2.2]
  | cons c text =>
      simp only [readExponent, List.cons_append] at h ⊢
      by_cases hc : c = 'e' ∨ c = 'E'
      · rw [if_pos hc] at h ⊢
        cases text with
        | nil => cases h
        | cons sign text =>
            simp only [List.cons_append] at h ⊢
            by_cases hsign : sign = '+' ∨ sign = '-'
            · rw [if_pos hsign] at h ⊢
              obtain ⟨⟨found, left⟩, hdigits, heq⟩ := Option.map_eq_some_iff.mp h
              obtain ⟨rfl, rfl⟩ := Prod.mk.inj heq
              rw [readDigits_append hdigits hmore]
              rfl
            · rw [if_neg hsign] at h ⊢
              obtain ⟨⟨found, left⟩, hdigits, heq⟩ := Option.map_eq_some_iff.mp h
              obtain ⟨rfl, rfl⟩ := Prod.mk.inj heq
              rw [← List.cons_append, readDigits_append hdigits hmore]
              rfl
      · rw [if_neg hc] at h ⊢
        obtain ⟨rfl, rfl⟩ := Prod.mk.inj (Option.some.inj h)
        rfl

theorem readUnsigned_append {negative : Bool} {v : Json}
    (h : readUnsigned negative text = some (v, rest)) (hmore : Stops more) :
    readUnsigned negative (text ++ more) = some (v, rest ++ more) := by
  simp only [readUnsigned, Option.bind_eq_bind, Option.bind_eq_some_iff] at h
  obtain ⟨⟨whole, left⟩, hwhole, ⟨fraction, left'⟩, hfraction, ⟨exponent, left''⟩, hexponent,
    heq⟩ := h
  obtain ⟨rfl, rfl⟩ := Prod.mk.inj (Option.some.inj heq)
  simp only [readUnsigned, Option.bind_eq_bind, readWhole_append hwhole hmore, Option.bind_some,
    readFraction_append hfraction hmore, readExponent_append hexponent hmore]
  rfl

/-- A number that is read up to the end is read with what follows where numbers stop. -/
theorem readNumber_append {v : Json} (h : readNumber text = some (v, rest)) (hmore : Stops more) :
    readNumber (text ++ more) = some (v, rest ++ more) := by
  by_cases hsign : ∃ tail, text = '-' :: tail
  · obtain ⟨tail, rfl⟩ := hsign
    exact readUnsigned_append h hmore
  · have hread : ∀ text : List Char, (¬∃ tail, text = '-' :: tail) →
        readNumber text = readUnsigned false text := by
      intro text hne
      unfold readNumber
      split
      · exact absurd ⟨_, rfl⟩ hne
      · rfl
    rw [hread text hsign] at h
    rw [hread _ ?_]
    · exact readUnsigned_append h hmore
    · rintro ⟨tail, htail⟩
      cases text with
      | nil => simp [readUnsigned, readWhole, readDigits] at h
      | cons c text =>
          obtain ⟨rfl, -⟩ := List.cons.inj htail
          exact hsign ⟨text, rfl⟩

/-- No number but zero begins with a zero. -/
theorem head_toDigits {n : Nat} (hn : 0 < n) : (Nat.toDigits 10 n).head? ≠ some '0' := by
  induction n using Nat.strongRecOn with
  | ind n ih =>
      rw [Nat.toDigits_eq_if (by decide)]
      split
      next hlt =>
        have hall : ∀ m : Fin 10, 0 < m.val → Nat.digitChar m ≠ '0' := by decide
        intro hzero
        exact hall ⟨n, hlt⟩ hn (Option.some.inj hzero)
      next hle =>
        have hhead := ih (n / 10) (by omega) (by omega)
        rw [List.head?_append_of_ne_nil _ Nat.toDigits_ne_nil]
        exact hhead

/-- The digits of a number are read as the whole of it. -/
theorem readWhole_toDigits (n : Nat) :
    readWhole (Nat.toDigits 10 n) = some (Nat.toDigits 10 n, []) := by
  have hdigits : ∀ c ∈ Nat.toDigits 10 n, c.isDigit = true := fun c hc =>
    Nat.isDigit_of_mem_toDigits (by decide) (by decide) hc
  obtain rfl | hn := Nat.eq_zero_or_pos n
  · decide
  · have hhead := head_toDigits hn
    have hne : (Nat.toDigits 10 n).isEmpty = false :=
      List.isEmpty_eq_false_iff.mpr Nat.toDigits_ne_nil
    have hread : readDigits (Nat.toDigits 10 n) = some (Nat.toDigits 10 n, []) := by
      simp only [readDigits, List.takeWhile_eq_self_iff.mpr hdigits,
        List.dropWhile_eq_nil_iff.mpr hdigits, hne, Bool.false_eq_true, if_false]
    unfold readWhole
    split
    next heq =>
      rw [heq] at hhead
      exact absurd rfl hhead
    next => exact hread

theorem readNumber_int {n : Int} (hlow : -9223372036854775808 ≤ n)
    (hhigh : n < 18446744073709551616) : readNumber (toString n).toList = some (.int n, []) := by
  have hunsigned : ∀ negative m, readUnsigned negative (Nat.toDigits 10 m) =
      some (numberOf negative (Nat.toDigits 10 m) [], []) := by
    intro negative m
    simp only [readUnsigned, readWhole_toDigits, Option.bind_eq_bind, Option.bind_some,
      readFraction, readExponent]
    rfl
  cases n with
  | ofNat m =>
      have htext : (toString (Int.ofNat m)).toList = Nat.toDigits 10 m := by
        rw [Int.toString_eq_repr]
        exact Nat.toList_repr
      have hsign : readNumber (Nat.toDigits 10 m) = readUnsigned false (Nat.toDigits 10 m) := by
        unfold readNumber
        split
        next heq =>
          have hminus : '-' ∈ Nat.toDigits 10 m := by
            rw [heq]
            exact List.mem_cons_self
          exact absurd (Nat.isDigit_of_mem_toDigits (by decide) (by decide) hminus) (by decide)
        next => rfl
      have hm : m < 18446744073709551616 := Int.ofNat_lt.mp hhigh
      rw [htext, hsign, hunsigned]
      simp [numberOf, hm]
  | negSucc m =>
      have htext : (toString (Int.negSucc m)).toList = '-' :: Nat.toDigits 10 (m + 1) := by
        rw [Int.toString_eq_repr]
        show ("-" ++ Nat.repr (m + 1)).toList = _
        rw [String.toList_append, Nat.toList_repr]
        rfl
      have hm : m + 1 ≤ 9223372036854775808 := by omega
      rw [htext, readNumber, hunsigned]
      simp [numberOf, hm, Int.negSucc_eq]

end Numbers

/-! ### Documents -/

section Documents

variable {depth : Nat} {v : Json} {rest : List Char}

/-- How the text of a document begins: not with a blank, nor with a closing bracket. -/
def Begins (text : List Char) : Prop :=
  ∃ c tail, text = c :: tail ∧ c ≠ ' ' ∧ c ≠ '\n' ∧ c ≠ '\t' ∧ c ≠ '\r' ∧ c ≠ ']' ∧ c ≠ '}'

theorem Begins.append {text : List Char} (h : Begins text) (more : List Char) :
    Begins (text ++ more) := by
  obtain ⟨c, tail, rfl, hc⟩ := h
  exact ⟨c, tail ++ more, rfl, hc⟩

theorem Begins.skipBlanks {text : List Char} (h : Begins text) : skipBlanks text = text := by
  obtain ⟨c, tail, rfl, hspace, hnewline, htab, hreturn, -⟩ := h
  exact skipBlanks_cons ⟨hspace, hnewline, htab, hreturn⟩

theorem begins_of_mem {c : Char} {tail : List Char} (h : c ∈ ['"', '{', '[', 'n', 't', 'f', '-']) :
    Begins (c :: tail) := by
  simp only [List.mem_cons, List.not_mem_nil, or_false] at h
  obtain rfl | rfl | rfl | rfl | rfl | rfl | rfl := h <;> exact ⟨_, tail, rfl, by decide⟩

theorem ne_of_isDigit {c d : Char} (hc : c.isDigit = true) (hd : d.isDigit = false) : c ≠ d := by
  intro heq
  rw [heq, hd] at hc
  cases hc

/-- How a number begins. -/
theorem exists_head_of_readNumber {text : List Char} (h : readNumber text = some (v, rest)) :
    ∃ c tail, text = c :: tail ∧ (c = '-' ∨ c.isDigit = true) := by
  cases text with
  | nil => cases h
  | cons c tail =>
      refine ⟨c, tail, rfl, ?_⟩
      by_cases hminus : c = '-'
      · exact .inl hminus
      · refine .inr ?_
        by_contra hdigit
        have hzero : c ≠ '0' := fun heq => hdigit (heq ▸ rfl)
        have hwhole : readWhole (c :: tail) = none := by
          unfold readWhole
          split
          next heq => exact absurd (List.cons.inj heq).1 hzero
          next => simp [readDigits, hdigit]
        have hunsigned : readNumber (c :: tail) = readUnsigned false (c :: tail) := by
          unfold readNumber
          split
          next heq => exact absurd (List.cons.inj heq).1 hminus
          next => rfl
        simp [hunsigned, readUnsigned, hwhole] at h

theorem begins_of_readNumber {text : List Char} (h : readNumber text = some (v, rest)) :
    Begins text := by
  obtain ⟨c, tail, rfl, hminus | hdigit⟩ := exists_head_of_readNumber h
  · exact begins_of_mem (by simp [hminus])
  · have hne : ∀ d, d.isDigit = false → c ≠ d := fun d => ne_of_isDigit hdigit
    exact ⟨c, tail, rfl, hne ' ' rfl, hne '\n' rfl, hne '\t' rfl, hne '\r' rfl, hne ']' rfl,
      hne '}' rfl⟩

/-- A text that begins like a number is read as one. -/
theorem readValue_number {text : List Char} (h : readNumber text = some (v, rest)) :
    readValue depth text = some (v, rest) := by
  obtain ⟨c, tail, rfl, hc⟩ := exists_head_of_readNumber h
  have hne : ∀ d, d.isDigit = false → d ≠ '-' → c ≠ d := by
    intro d hdigit hminus
    obtain rfl | hc := hc
    · exact hminus.symm
    · exact ne_of_isDigit hc hdigit
  have hblanks : skipBlanks (c :: tail) = c :: tail := (begins_of_readNumber h).skipBlanks
  unfold readValue
  rw [hblanks]
  split
  next heq => exact absurd (List.cons.inj heq).1 (hne '"' rfl (by decide))
  next heq => exact absurd (List.cons.inj heq).1 (hne '[' rfl (by decide))
  next heq => exact absurd (List.cons.inj heq).1 (hne '{' rfl (by decide))
  next heq => exact absurd (List.cons.inj heq).1 (hne 'n' rfl (by decide))
  next heq => exact absurd (List.cons.inj heq).1 (hne 't' rfl (by decide))
  next heq => exact absurd (List.cons.inj heq).1 (hne 'f' rfl (by decide))
  next => exact h

theorem readNumber_float {digits : String} (h : isFloat digits = true) :
    readNumber digits.toList = some (.float digits, []) := by
  rw [isFloat] at h
  split at h
  next kept heq => rw [heq, eq_of_beq h]
  next => cases h

theorem begins_render (h : Readable depth v) : Begins (render v) := by
  cases h with
  | null =>
      rw [render]
      exact begins_of_mem (by simp)
  | bool depth b =>
      cases b <;> rw [render] <;> exact begins_of_mem (by simp)
  | int depth n hlow hhigh =>
      rw [render]
      exact begins_of_readNumber (readNumber_int hlow hhigh)
  | float depth digits hdigits =>
      rw [render]
      exact begins_of_readNumber (readNumber_float hdigits)
  | str depth s =>
      rw [render, quoted]
      exact begins_of_mem (by simp)
  | arr depth items =>
      rw [render]
      exact begins_of_mem (by simp)
  | obj depth fields =>
      rw [render]
      exact begins_of_mem (by simp)

/-- A reader that gives back what is written of some documents, whatever follows them. -/
def ReadsBack (read : List Char → Option (Json × List Char)) (items : List Json) : Prop :=
  ∀ v ∈ items, ∀ rest, Stops rest → read (render v ++ rest) = some (v, rest)

theorem stops_comma : Stops (',' :: rest) :=
  .cons (by decide)

theorem readItems_render {read : List Char → Option (Json × List Char)} {items : List Json}
    (hread : ReadsBack read items) (hne : items ≠ []) {fuel : Nat} (hfuel : items.length ≤ fuel) :
    readItems read fuel (renderItems items ++ ']' :: rest) = some (items, rest) := by
  induction items generalizing fuel with
  | nil => exact absurd rfl hne
  | cons v items ih =>
      obtain ⟨hv, hitems⟩ := List.forall_mem_cons.mp hread
      obtain ⟨fuel, rfl⟩ : ∃ n, fuel = n + 1 := Nat.exists_eq_add_one.mpr (by
        rw [List.length_cons] at hfuel
        omega)
      cases items with
      | nil =>
          have hend : Stops (']' :: rest) := .cons (by decide)
          rw [renderItems, readItems, hv _ hend]
          rfl
      | cons w items =>
          have hrest := ih hitems (List.cons_ne_nil w items) (Nat.le_of_succ_le_succ hfuel)
          rw [renderItems, List.append_assoc, List.cons_append, readItems, hv _ stops_comma]
          simp only [Option.bind_eq_bind, Option.bind_some]
          rw [skipBlanks_cons (by decide)]
          simp only [hrest, Option.bind_some]
          rfl

theorem readField_render {read : List Char → Option (Json × List Char)} {name : String}
    {more : List Char} (hread : read (render v ++ more) = some (v, more)) :
    readField read (quoted name ++ ':' :: render v ++ more) = some ((name, v), more) := by
  have htext : quoted name ++ ':' :: render v ++ more =
      '"' :: (name.toList.flatMap escapeChar ++ '"' :: ':' :: (render v ++ more)) := by
    simp [quoted]
  rw [htext, readField, skipBlanks_cons (by decide)]
  simp only [readString_quoted name (':' :: (render v ++ more)), Option.bind_eq_bind,
    Option.bind_some]
  rw [skipBlanks_cons (by decide)]
  simp only [hread, Option.bind_some, String.ofList_toList]
  rfl

theorem readFields_render {read : List Char → Option (Json × List Char)}
    {fields : List (String × Json)} (hread : ReadsBack read (fields.map Prod.snd))
    (hne : fields ≠ []) {fuel : Nat} (hfuel : fields.length ≤ fuel) :
    readFields read fuel (renderFields fields ++ '}' :: rest) = some (fields, rest) := by
  induction fields generalizing fuel with
  | nil => exact absurd rfl hne
  | cons field fields ih =>
      obtain ⟨name, v⟩ := field
      obtain ⟨hv, hfields⟩ := List.forall_mem_cons.mp hread
      obtain ⟨fuel, rfl⟩ : ∃ n, fuel = n + 1 := Nat.exists_eq_add_one.mpr (by
        rw [List.length_cons] at hfuel
        omega)
      cases fields with
      | nil =>
          have hend : Stops ('}' :: rest) := .cons (by decide)
          rw [renderFields, readFields, readField_render (hv _ hend)]
          simp only [Option.bind_eq_bind, Option.bind_some]
          rw [skipBlanks_cons (by decide)]
          rfl
      | cons field fields =>
          have hrest := ih hfields (List.cons_ne_nil field fields) (Nat.le_of_succ_le_succ hfuel)
          rw [renderFields, List.append_assoc, List.cons_append, readFields,
            readField_render (hv _ stops_comma)]
          simp only [Option.bind_eq_bind, Option.bind_some]
          rw [skipBlanks_cons (by decide)]
          simp only [hrest, Option.bind_some]
          rfl

theorem length_le_renderItems {items : List Json} (h : ∀ v ∈ items, Readable depth v) :
    items.length ≤ (renderItems items).length := by
  induction items with
  | nil => exact Nat.le_refl 0
  | cons v items ih =>
      obtain ⟨hv, hitems⟩ := List.forall_mem_cons.mp h
      obtain ⟨c, tail, htext, -⟩ := begins_render hv
      have hlength : (render v).length = tail.length + 1 := by rw [htext, List.length_cons]
      cases items with
      | nil =>
          rw [renderItems, List.length_cons, List.length_nil]
          omega
      | cons w items =>
          have hle := ih hitems
          rw [renderItems]
          simp only [List.length_append, List.length_cons] at hle ⊢
          omega

theorem length_le_renderFields (fields : List (String × Json)) :
    fields.length ≤ (renderFields fields).length := by
  induction fields with
  | nil => exact Nat.le_refl 0
  | cons field fields ih =>
      obtain ⟨name, v⟩ := field
      cases fields with
      | nil =>
          rw [renderFields]
          simp only [List.length_append, List.length_cons, List.length_nil]
          omega
      | cons field fields =>
          rw [renderFields]
          simp only [List.length_append, List.length_cons] at ih ⊢
          omega

theorem readValue_str (s : String) : readValue depth (quoted s ++ rest) = some (.str s, rest) := by
  have htext : quoted s ++ rest = '"' :: (s.toList.flatMap escapeChar ++ '"' :: rest) := by
    simp [quoted]
  rw [htext, readValue, skipBlanks_cons (by decide)]
  simp only [readString_quoted s rest, Option.map_some, String.ofList_toList]

theorem begins_renderItems {items : List Json} (hne : items ≠ [])
    (h : ∀ v ∈ items, Readable depth v) (more : List Char) :
    Begins (renderItems items ++ more) := by
  cases items with
  | nil => exact absurd rfl hne
  | cons v items =>
      have hv := begins_render (h v List.mem_cons_self)
      cases items with
      | nil =>
          rw [renderItems]
          exact hv.append more
      | cons w items =>
          rw [renderItems, List.append_assoc]
          exact hv.append _

theorem readValue_bracket (depth : Nat) (text : List Char) :
    readValue (depth + 1) ('[' :: text) =
      match skipBlanks text with
      | ']' :: rest => some (.arr [], rest)
      | _ => (readItems (readValue depth) text.length text).map fun (items, rest) =>
          (.arr items, rest) := by
  rw [readValue, skipBlanks_cons (by decide)]
  rfl

theorem readValue_arr {items : List Json} (h : ∀ v ∈ items, Readable depth v)
    (hread : ReadsBack (readValue depth) items) :
    readValue (depth + 1) (render (.arr items) ++ rest) = some (.arr items, rest) := by
  have htext : render (.arr items) ++ rest = '[' :: (renderItems items ++ ']' :: rest) := by
    simp [render]
  rw [htext, readValue_bracket]
  by_cases hne : items = []
  · subst hne
    rw [renderItems, List.nil_append, skipBlanks_cons (by decide)]
    rfl
  · have hbegins := begins_renderItems hne h (']' :: rest)
    have hskip := hbegins.skipBlanks
    obtain ⟨c, tail, htail, hc⟩ := hbegins
    have hfuel : items.length ≤ (renderItems items ++ ']' :: rest).length := by
      have hle := length_le_renderItems h
      rw [List.length_append]
      omega
    rw [hskip, readItems_render hread hne hfuel]
    split
    next heq => exact absurd (List.cons.inj (htail.symm.trans heq)).1 hc.2.2.2.2.1
    next => rfl

theorem begins_renderFields {fields : List (String × Json)} (hne : fields ≠ [])
    (more : List Char) : Begins (renderFields fields ++ more) := by
  cases fields with
  | nil => exact absurd rfl hne
  | cons field fields =>
      obtain ⟨name, v⟩ := field
      cases fields with
      | nil =>
          rw [renderFields, quoted]
          exact begins_of_mem (by simp)
      | cons field fields =>
          rw [renderFields, quoted]
          exact begins_of_mem (by simp)

theorem readValue_brace (depth : Nat) (text : List Char) :
    readValue (depth + 1) ('{' :: text) =
      match skipBlanks text with
      | '}' :: rest => some (.obj [], rest)
      | _ => (readFields (readValue depth) text.length text).map fun (fields, rest) =>
          (.obj fields, rest) := by
  rw [readValue, skipBlanks_cons (by decide)]
  rfl

theorem readValue_obj {fields : List (String × Json)}
    (hread : ReadsBack (readValue depth) (fields.map Prod.snd)) :
    readValue (depth + 1) (render (.obj fields) ++ rest) = some (.obj fields, rest) := by
  have htext : render (.obj fields) ++ rest = '{' :: (renderFields fields ++ '}' :: rest) := by
    simp [render]
  rw [htext, readValue_brace]
  by_cases hne : fields = []
  · subst hne
    rw [renderFields, List.nil_append, skipBlanks_cons (by decide)]
    rfl
  · have hbegins := begins_renderFields hne ('}' :: rest)
    have hskip := hbegins.skipBlanks
    obtain ⟨c, tail, htail, hc⟩ := hbegins
    have hfuel : fields.length ≤ (renderFields fields ++ '}' :: rest).length := by
      have hle := length_le_renderFields fields
      rw [List.length_append]
      omega
    rw [hskip, readFields_render hread hne hfuel]
    split
    next heq => exact absurd (List.cons.inj (htail.symm.trans heq)).1 hc.2.2.2.2.2
    next => rfl

/-- A document is read from what is written of it, whatever follows it there. -/
theorem readValue_render (h : Readable depth v) (hrest : Stops rest) :
    readValue depth (render v ++ rest) = some (v, rest) := by
  -- By induction on the derivation: what is in an array or an object is read one level further in.
  induction h generalizing rest with
  | null =>
      rw [render, List.cons_append, readValue, skipBlanks_cons (by decide)]
      rfl
  | bool depth b =>
      cases b <;> rw [render, List.cons_append, readValue, skipBlanks_cons (by decide)] <;> rfl
  | int depth n hlow hhigh =>
      rw [render]
      exact readValue_number (readNumber_append (readNumber_int hlow hhigh) hrest)
  | float depth digits hdigits =>
      rw [render]
      exact readValue_number (readNumber_append (readNumber_float hdigits) hrest)
  | str depth s =>
      rw [render]
      exact readValue_str s
  | arr depth items hitems ih =>
      exact readValue_arr hitems fun v hv rest hrest => ih v hv hrest
  | obj depth fields hfields ih =>
      refine readValue_obj fun v hv rest hrest => ?_
      obtain ⟨field, hfield, rfl⟩ := List.mem_map.mp hv
      exact ih field hfield hrest

/-- A document that is not too deep is read from its text. -/
theorem parse_render (h : Readable maxDepth v) : parse (String.ofList (render v)) = some v := by
  have hread := readValue_render h Stops.nil
  rw [List.append_nil] at hread
  rw [parse, String.toList_ofList, hread]
  rfl

end Documents

end Fraisier.Data.Json
