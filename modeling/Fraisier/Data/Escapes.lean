import Mathlib.Data.List.DropRight
import Fraisier.Data.Percent

/-!
# What decoding changes

Decoding a text makes fewer ASCII bytes of it, or leaves it as it is. Read
`decodeLossy_cases` first: it is left as it is exactly when it has no `%XX`. What a component
is decoded to does not depend on whether other characters of it are written as `%XX`.
-/

namespace Fraisier.Data

/-- How many of some bytes are ASCII. -/
def asciiCount (bytes : List UInt8) : Nat :=
  bytes.countP (· < 0x80)

/-- How many of some characters are ASCII. -/
def weight (text : List Char) : Nat :=
  asciiCount (utf8 text)

@[simp] theorem asciiCount_nil : asciiCount [] = 0 := rfl

@[simp] theorem asciiCount_append (bytes bytes' : List UInt8) :
    asciiCount (bytes ++ bytes') = asciiCount bytes + asciiCount bytes' :=
  List.countP_append

theorem asciiCount_cons (byte : UInt8) (bytes : List UInt8) :
    asciiCount (byte :: bytes) = (if byte < 0x80 then 1 else 0) + asciiCount bytes := by
  rw [asciiCount, List.countP_cons, asciiCount, Nat.add_comm]
  simp

theorem asciiCount_cons_le (byte : UInt8) (bytes : List UInt8) :
    asciiCount (byte :: bytes) ≤ 1 + asciiCount bytes := by
  rw [asciiCount_cons]
  split <;> omega

theorem asciiCount_eq_zero {bytes : List UInt8} (h : ∀ byte ∈ bytes, ¬byte < 0x80) :
    asciiCount bytes = 0 :=
  List.countP_eq_zero.mpr fun byte hbyte => by simpa using h byte hbyte

@[simp] theorem weight_append (text text' : List Char) :
    weight (text ++ text') = weight text + weight text' := by
  rw [weight, utf8_append, asciiCount_append, weight, weight]

theorem weight_cons (c : Char) (text : List Char) :
    weight (c :: text) = weight [c] + weight text :=
  weight_append [c] text

/-- An ASCII character has a weight. -/
theorem weight_ascii {c : Char} (h : c.toNat < 128) : weight [c] = 1 := by
  have hbyte : c.val.toUInt8 < 0x80 := by
    rw [UInt8.lt_iff_toNat_lt, toNat_ascii h]
    exact h
  rw [weight, utf8_cons, utf8EncodeChar_ascii h, utf8_nil, List.append_nil, asciiCount_cons,
    if_pos hbyte, asciiCount_nil]

/-! ## Reading bytes as characters -/

/-- The bytes that begin with a character go on behind it. -/
theorem exists_of_decodeChar {bytes : List UInt8} {c : Char} (h : decodeChar bytes = some c) :
    ∃ rest, bytes = String.utf8EncodeChar c ++ rest := by
  obtain ⟨tail, htail⟩ := ByteArray.exists_of_utf8DecodeChar?_eq_some h
  refine ⟨tail.data.toList, ?_⟩
  have hlist := congrArg (fun array => array.data.toList) htail
  simpa using hlist

/-- An ASCII byte is a character. -/
theorem decodeChar_ascii {byte : UInt8} (h : byte < 0x80) (rest : List UInt8) :
    decodeChar (byte :: rest) ≠ none := by
  have hnat : byte.toNat < 128 := UInt8.lt_iff_toNat_lt.mp h
  have hchar := toNat_ofNat_ascii byte.toNat hnat
  have hencoded : String.utf8EncodeChar (Char.ofNat byte.toNat) = [byte] := by
    have hascii : (Char.ofNat byte.toNat).toNat < 128 := by rwa [hchar]
    rw [utf8EncodeChar_ascii hascii]
    congr 1
    exact UInt8.toNat_inj.mp (by rw [toNat_ascii hascii, hchar])
  have hdecoded := decodeChar_append (Char.ofNat byte.toNat) rest
  rw [hencoded, List.singleton_append] at hdecoded
  rw [hdecoded]
  simp

theorem not_ascii_of_followsLead {lead byte : UInt8} (h : followsLead lead byte = true) :
    ¬byte < 0x80 := by
  rw [UInt8.not_lt]
  unfold followsLead isContinuation at h
  split at h
  · simp only [Bool.and_eq_true, decide_eq_true_eq] at h
    exact UInt8.le_trans (by decide) h.1
  · split at h
    · simp only [Bool.and_eq_true, decide_eq_true_eq] at h
      exact h.1
    · split at h
      · simp only [Bool.and_eq_true, decide_eq_true_eq] at h
        exact UInt8.le_trans (by decide) h.1
      · split at h
        · simp only [Bool.and_eq_true, decide_eq_true_eq] at h
          exact h.1
        · simp only [Bool.and_eq_true, decide_eq_true_eq] at h
          exact h.1

/-- What is replaced is not empty and has no ASCII byte in it. -/
theorem malformedLength_spec {lead : UInt8} {rest : List UInt8} (hlead : ¬lead < 0x80) :
    0 < malformedLength (lead :: rest) ∧
      ∀ byte ∈ (lead :: rest).take (malformedLength (lead :: rest)), ¬byte < 0x80 := by
  have hone : 0 < 1 ∧ ∀ byte ∈ (lead :: rest).take 1, ¬byte < 0x80 := by
    refine ⟨Nat.one_pos, fun byte hbyte => ?_⟩
    rw [List.mem_singleton.mp hbyte]
    exact hlead
  have htwo : ∀ {second : UInt8} {more : List UInt8}, followsLead lead second = true →
      0 < 2 ∧ ∀ byte ∈ (lead :: second :: more).take 2, ¬byte < 0x80 := by
    intro second more hsecond
    refine ⟨Nat.two_pos, ?_⟩
    rw [List.take_succ_cons, List.take_succ_cons, List.take_zero, List.forall_mem_cons,
      List.forall_mem_singleton]
    exact ⟨hlead, not_ascii_of_followsLead hsecond⟩
  match rest with
  | [] => exact hone
  | [second] =>
      rw [malformedLength]
      split
      next h => exact htwo h.2.2
      next => exact hone
  | second :: third :: more =>
      rw [malformedLength]
      split
      next h => exact htwo h.2.2
      next =>
        split
        next h =>
          split
          next hthird =>
            refine ⟨by decide, ?_⟩
            rw [List.take_succ_cons, List.take_succ_cons, List.take_succ_cons, List.take_zero,
              List.forall_mem_cons, List.forall_mem_cons, List.forall_mem_singleton]
            refine ⟨hlead, not_ascii_of_followsLead h.2.2, ?_⟩
            simp only [isContinuation, Bool.and_eq_true, decide_eq_true_eq] at hthird
            exact UInt8.not_lt.mpr hthird.1
          next => exact htwo h.2.2
        next => exact hone

theorem asciiCount_lossyFrom {fuel : Nat} {bytes : List UInt8} (h : bytes.length ≤ fuel) :
    weight (lossyFrom fuel bytes) = asciiCount bytes := by
  induction fuel generalizing bytes with
  | zero =>
      obtain rfl := List.length_eq_zero_iff.mp (Nat.le_zero.mp h)
      rfl
  | succ fuel ih =>
      cases bytes with
      | nil => rfl
      | cons byte rest =>
          cases hchar : decodeChar (byte :: rest) with
          | some c =>
              obtain ⟨tail, htail⟩ := exists_of_decodeChar hchar
              have hlength := congrArg List.length htail
              have hpos := c.utf8Size_pos
              rw [List.length_append, String.length_utf8EncodeChar] at hlength
              have hdrop : (byte :: rest).drop (String.utf8EncodeChar c).length = tail := by
                rw [htail, List.drop_left]
              simp only [lossyFrom, hchar, hdrop]
              rw [weight_cons, ih (by omega), htail, asciiCount_append, weight, utf8_cons,
                utf8_nil, List.append_nil]
          | none =>
              have hbyte : ¬byte < 0x80 := fun hascii => decodeChar_ascii hascii rest hchar
              obtain ⟨hpos, htake⟩ := @malformedLength_spec byte rest hbyte
              have hlength : ((byte :: rest).drop (malformedLength (byte :: rest))).length ≤
                  fuel := by
                rw [List.length_drop]
                omega
              have hcount := asciiCount_append
                ((byte :: rest).take (malformedLength (byte :: rest)))
                ((byte :: rest).drop (malformedLength (byte :: rest)))
              rw [List.take_append_drop, asciiCount_eq_zero htake] at hcount
              simp only [lossyFrom, hchar]
              rw [weight_cons, ih hlength, hcount]
              rfl

/-- Reading bytes as characters keeps the ASCII ones, and makes no others. -/
@[simp] theorem weight_fromUtf8Lossy (bytes : List UInt8) :
    weight (fromUtf8Lossy bytes) = asciiCount bytes :=
  asciiCount_lossyFrom (Nat.le_refl _)

/-! ## Escapes -/

/-- Whether a character is a hexadecimal digit. -/
def isHexChar (c : Char) : Bool :=
  c.toNat < 128 && (hexValue c.val.toUInt8).isSome

/-- Whether there is a `%XX` in a text. -/
def hasEscape : List Char → Bool
  | '%' :: high :: low :: rest =>
      (isHexChar high && isHexChar low) || hasEscape (high :: low :: rest)
  | _ :: rest => hasEscape rest
  | [] => false

theorem ascii_of_hexValue {byte : UInt8} (h : hexValue byte ≠ none) : byte < 0x80 := by
  have hall : ∀ n : Fin 256, hexValue (UInt8.ofFin n) ≠ none → UInt8.ofFin n < 0x80 := by
    decide +kernel
  exact hall byte.toFin h

theorem hexByte_ne_none {high low : UInt8} :
    hexByte high low ≠ none ↔ hexValue high ≠ none ∧ hexValue low ≠ none := by
  cases hhigh : hexValue high <;> cases hlow : hexValue low <;> simp [hexByte, hhigh, hlow]

/-- Bytes that begin with an ASCII one are those of an ASCII character and of others. -/
theorem exists_of_utf8_cons {text : List Char} {byte : UInt8} {rest : List UInt8}
    (h : utf8 text = byte :: rest) (hascii : byte < 0x80) :
    ∃ c text', text = c :: text' ∧ c.toNat < 128 ∧ c.val.toUInt8 = byte ∧ utf8 text' = rest := by
  cases text with
  | nil => cases h
  | cons c text' =>
      obtain ⟨lead, more, hencoded, -, -, hmore⟩ := exists_encoded c
      rw [utf8_cons, hencoded, List.cons_append] at h
      obtain ⟨rfl, hrest⟩ := List.cons.inj h
      rw [hmore hascii] at hencoded hrest
      have hsize : c.utf8Size = 1 := by
        rw [← String.length_utf8EncodeChar, hencoded]
        rfl
      have hc : c.toNat < 128 := Nat.lt_succ_of_le (Char.utf8Size_eq_one_iff.mp hsize)
      rw [utf8EncodeChar_ascii hc] at hencoded
      exact ⟨c, text', rfl, hc, (List.cons.inj hencoded).1, hrest⟩

theorem percentDecode_cons {byte : UInt8} (hbyte : byte ≠ '%'.toUInt8) (rest : List UInt8) :
    percentDecode (byte :: rest) = byte :: percentDecode rest := by
  match rest with
  | [] => rfl
  | [_] => rfl
  | high :: low :: rest => rw [percentDecode, if_neg hbyte]

theorem percentDecode_append {before : List UInt8} (h : ∀ byte ∈ before, byte ≠ '%'.toUInt8)
    (rest : List UInt8) : percentDecode (before ++ rest) = before ++ percentDecode rest := by
  induction before with
  | nil => rfl
  | cons byte before ih =>
      rw [List.cons_append, percentDecode_cons (h byte List.mem_cons_self),
        ih fun b hb => h b (List.mem_cons_of_mem byte hb), List.cons_append]

/-- A `%` that no digits follow stands for itself. -/
theorem percentDecode_percent {rest : List UInt8}
    (h : ∀ high low rest', rest = high :: low :: rest' → hexByte high low = none) :
    percentDecode ('%'.toUInt8 :: rest) = '%'.toUInt8 :: percentDecode rest := by
  match rest, h with
  | [], _ => rfl
  | [_], _ => rfl
  | high :: low :: rest, h => rw [percentDecode, if_pos rfl, h high low rest rfl]

theorem asciiCount_cons_mono (byte : UInt8) {bytes bytes' : List UInt8}
    (h : asciiCount bytes ≤ asciiCount bytes') :
    asciiCount (byte :: bytes) ≤ asciiCount (byte :: bytes') := by
  rw [asciiCount_cons, asciiCount_cons]
  omega

/-- An escape counts for three. -/
theorem asciiCount_escape {high low : UInt8} (h : hexByte high low ≠ none) (rest : List UInt8) :
    asciiCount ('%'.toUInt8 :: high :: low :: rest) = 3 + asciiCount rest := by
  obtain ⟨hhigh, hlow⟩ := hexByte_ne_none.mp h
  rw [asciiCount_cons, asciiCount_cons, asciiCount_cons, if_pos (by decide),
    if_pos (ascii_of_hexValue hhigh), if_pos (ascii_of_hexValue hlow)]
  omega

theorem asciiCount_percentDecode_le (bytes : List UInt8) :
    asciiCount (percentDecode bytes) ≤ asciiCount bytes := by
  fun_induction percentDecode bytes with
  | case1 high low rest decoded hdecoded ih =>
      have hcount := asciiCount_cons_le decoded (percentDecode rest)
      rw [asciiCount_escape (by rw [hdecoded]; simp)]
      omega
  | case2 high low rest hnone ih => exact asciiCount_cons_mono _ ih
  | case3 byte high low rest hbyte ih => exact asciiCount_cons_mono _ ih
  | case4 => exact Nat.le_refl _

/-- No byte of a character but `%` is that of `%`. -/
theorem ne_percent_of_mem {c : Char} (hc : c ≠ '%') :
    ∀ byte ∈ String.utf8EncodeChar c, byte ≠ '%'.toUInt8 := by
  intro byte hbyte hpercent
  have hascii : ∀ b, b = '%'.toUInt8 → b < 0x80 := by
    rintro b rfl
    decide
  obtain ⟨lead, rest, hencoded, -, hrest, hone⟩ := exists_encoded c
  rw [hencoded] at hbyte
  obtain rfl | hmem := List.mem_cons.mp hbyte
  · have hbytes : utf8 [c] = byte :: (rest ++ utf8 []) := by
      rw [utf8_cons, hencoded, List.cons_append]
    obtain ⟨d, text, hd, hd', hval, -⟩ := exists_of_utf8_cons hbytes (hascii _ hpercent)
    obtain ⟨rfl, -⟩ := List.cons.inj hd
    refine hc (Char.toNat_inj.mp ?_)
    rw [← toNat_ascii hd', hval, hpercent]
    rfl
  · have hcontinues := hrest byte hmem
    rw [hpercent] at hcontinues
    cases hcontinues

/-- The bytes of a text begin with two digits where the text does. -/
theorem hexByte_eq_none {text : List Char}
    (h : ∀ high low rest, text = high :: low :: rest → ¬(isHexChar high && isHexChar low) = true)
    {high low : UInt8} {rest : List UInt8} (hbytes : utf8 text = high :: low :: rest) :
    hexByte high low = none := by
  by_contra hne
  obtain ⟨hhigh, hlow⟩ := hexByte_ne_none.mp hne
  obtain ⟨c, text', rfl, hc, rfl, hrest⟩ := exists_of_utf8_cons hbytes (ascii_of_hexValue hhigh)
  obtain ⟨d, text'', rfl, hd, rfl, -⟩ := exists_of_utf8_cons hrest (ascii_of_hexValue hlow)
  refine h c d text'' rfl ?_
  simp only [isHexChar, Bool.and_eq_true, decide_eq_true_eq, Option.isSome_iff_ne_none]
  exact ⟨⟨hc, hhigh⟩, hd, hlow⟩

/-- Two digits are the bytes of two digits. -/
theorem utf8_hexChars {high low : Char} (h : (isHexChar high && isHexChar low) = true)
    (rest : List Char) : utf8 (high :: low :: rest) =
        high.val.toUInt8 :: low.val.toUInt8 :: utf8 rest ∧
      hexByte high.val.toUInt8 low.val.toUInt8 ≠ none := by
  simp only [isHexChar, Bool.and_eq_true, decide_eq_true_eq, Option.isSome_iff_ne_none] at h
  obtain ⟨⟨hhigh, hhighValue⟩, hlow, hlowValue⟩ := h
  refine ⟨?_, hexByte_ne_none.mpr ⟨hhighValue, hlowValue⟩⟩
  rw [utf8_cons, utf8_cons, utf8EncodeChar_ascii hhigh, utf8EncodeChar_ascii hlow]
  rfl

theorem utf8_percent (rest : List Char) : utf8 ('%' :: rest) = '%'.toUInt8 :: utf8 rest := rfl

/-- A text has no escape and stands for itself, or decoding it makes fewer ASCII bytes. -/
theorem percentDecode_cases (text : List Char) :
    (hasEscape text = false ∧ percentDecode (utf8 text) = utf8 text) ∨
      (hasEscape text = true ∧ asciiCount (percentDecode (utf8 text)) < weight text) := by
  fun_induction hasEscape text with
  | case1 high low rest ih =>
      by_cases hhex : (isHexChar high && isHexChar low) = true
      · obtain ⟨hbytes, hvalue⟩ := utf8_hexChars hhex rest
        refine .inr ⟨by rw [hhex, Bool.true_or], ?_⟩
        obtain ⟨decoded, hdecoded⟩ := Option.ne_none_iff_exists'.mp hvalue
        have hle := asciiCount_percentDecode_le (utf8 rest)
        have hcount := asciiCount_cons_le decoded (percentDecode (utf8 rest))
        rw [weight, utf8_percent, hbytes, asciiCount_escape hvalue, percentDecode, if_pos rfl,
          hdecoded]
        dsimp only
        omega
      · have hstep : percentDecode (utf8 ('%' :: high :: low :: rest)) =
            '%'.toUInt8 :: percentDecode (utf8 (high :: low :: rest)) := by
          refine percentDecode_percent fun b b' bytes hbytes => hexByte_eq_none ?_ hbytes
          intro c d more heq
          simp only [List.cons.injEq] at heq
          rw [← heq.1, ← heq.2.1]
          exact hhex
        rw [hstep, weight, utf8_percent, Bool.eq_false_iff.mpr hhex, Bool.false_or]
        obtain ⟨hnone, hsame⟩ | ⟨hescape, hless⟩ := ih
        · exact .inl ⟨hnone, by rw [hsame]⟩
        · refine .inr ⟨hescape, ?_⟩
          rw [asciiCount_cons, asciiCount_cons]
          exact Nat.add_lt_add_left hless _
  | case2 c rest hother ih =>
      have hstep : percentDecode (utf8 (c :: rest)) =
          String.utf8EncodeChar c ++ percentDecode (utf8 rest) := by
        by_cases hc : c = '%'
        · subst hc
          refine percentDecode_percent fun b b' bytes hbytes => hexByte_eq_none ?_ hbytes
          rintro high low more rfl
          exact absurd rfl (hother high low more rfl)
        · exact percentDecode_append (ne_percent_of_mem hc) (utf8 rest)
      rw [hstep, weight, utf8_cons]
      obtain ⟨hnone, hsame⟩ | ⟨hescape, hless⟩ := ih
      · exact .inl ⟨hnone, by rw [hsame]⟩
      · refine .inr ⟨hescape, ?_⟩
        rw [asciiCount_append, asciiCount_append]
        exact Nat.add_lt_add_left hless _
  | case3 => exact .inl ⟨rfl, rfl⟩

/-- What a text is decoded to. -/
def decodeLossy (text : List Char) : List Char :=
  fromUtf8Lossy (percentDecode (utf8 text))

/-- A text without escapes is decoded to itself. Any other is decoded to fewer ASCII
characters. -/
theorem decodeLossy_cases (text : List Char) :
    (hasEscape text = false ∧ decodeLossy text = text) ∨
      (hasEscape text = true ∧ weight (decodeLossy text) < weight text) := by
  rw [decodeLossy, weight_fromUtf8Lossy]
  obtain ⟨hnone, hsame⟩ | hless := percentDecode_cases text
  · exact .inl ⟨hnone, by rw [hsame, fromUtf8Lossy_utf8]⟩
  · exact .inr hless

theorem decodeLossy_of_hasEscape {text : List Char} (h : hasEscape text = false) :
    decodeLossy text = text := by
  obtain ⟨-, hsame⟩ | ⟨hsome, -⟩ := decodeLossy_cases text
  · exact hsame
  · rw [h] at hsome
    cases hsome

theorem hasEscape_eq_false_of_not_mem {text : List Char} (h : '%' ∉ text) :
    hasEscape text = false := by
  fun_induction hasEscape text with
  | case1 high low rest ih => exact absurd List.mem_cons_self h
  | case2 c rest hother ih => exact ih fun hmem => h (List.mem_cons_of_mem c hmem)
  | case3 => rfl

/-! ## Escaping more -/

/-- A set of bytes to escape that leaves `%` and the digits of escapes alone. -/
def KeepsEscapes (escaped : UInt8 → Bool) : Prop :=
  ∀ byte, escaped byte = true → byte ≠ '%'.toUInt8 ∧ hexValue byte = none

theorem hexByte_escapeByte (byte : UInt8) : ∃ high low,
    utf8 (escapeByte byte) = ['%'.toUInt8, high, low] ∧ hexByte high low = some byte := by
  have hall : ∀ n : Fin 256, utf8 (escapeByte (UInt8.ofFin n)) =
        ['%'.toUInt8, (upperDigit (n / 16)).val.toUInt8, (upperDigit (n % 16)).val.toUInt8] ∧
      hexByte (upperDigit (n / 16)).val.toUInt8 (upperDigit (n % 16)).val.toUInt8 =
        some (UInt8.ofFin n) := by
    decide +kernel
  exact ⟨_, _, hall byte.toFin⟩

/-- A byte is encoded as itself, or it is escaped and means nothing in an escape. -/
theorem encodeByte_cases {escaped : UInt8 → Bool} (hset : KeepsEscapes escaped) (byte : UInt8) :
    utf8 (encodeByte escaped byte) = [byte] ∨
      (byte ≠ '%'.toUInt8 ∧ hexValue byte = none ∧ ∃ high low,
        utf8 (encodeByte escaped byte) = ['%'.toUInt8, high, low] ∧
          hexByte high low = some byte) := by
  rw [encodeByte]
  split
  next hescaped =>
    refine .inr ?_
    obtain hescaped | hhigh : escaped byte = true ∨ 0x80 ≤ byte := by simpa using hescaped
    · exact ⟨(hset byte hescaped).1, (hset byte hescaped).2, hexByte_escapeByte byte⟩
    · refine ⟨?_, ?_, hexByte_escapeByte byte⟩
      · rintro rfl
        exact absurd hhigh (by decide)
      · by_contra hvalue
        exact UInt8.not_le.mpr (ascii_of_hexValue hvalue) hhigh
  next hkept =>
    have hascii : byte.toNat < 128 := by
      simp only [Bool.or_eq_true, decide_eq_true_eq, not_or] at hkept
      exact UInt8.lt_iff_toNat_lt.mp (UInt8.not_le.mp hkept.2)
    have hchar := toNat_ofNat_ascii byte.toNat hascii
    have hchar' : (Char.ofNat byte.toNat).toNat < 128 := by rwa [hchar]
    refine .inl ?_
    rw [utf8_cons, utf8EncodeChar_ascii hchar', utf8_nil, List.append_nil]
    congr 1
    exact UInt8.toNat_inj.mp (by rw [toNat_ascii hchar', hchar])

/-- The first two bytes of what is encoded are digits only where they were. -/
theorem hexByte_encoded {escaped : UInt8 → Bool} (hset : KeepsEscapes escaped)
    {bytes : List UInt8}
    (h : ∀ high low rest, bytes = high :: low :: rest → hexByte high low = none)
    {high low : UInt8} {rest : List UInt8}
    (hencoded : bytes.flatMap (fun byte => utf8 (encodeByte escaped byte)) =
      high :: low :: rest) : hexByte high low = none := by
  have hpercent : ∀ b, hexByte '%'.toUInt8 b = none := fun _ => rfl
  have hpercent' : ∀ b, hexByte b '%'.toUInt8 = none := by
    intro b
    by_contra hne
    exact (hexByte_ne_none.mp hne).2 rfl
  cases bytes with
  | nil => cases hencoded
  | cons first bytes =>
      rw [List.flatMap_cons] at hencoded
      obtain hkept | ⟨-, -, _, _, hescaped, -⟩ := encodeByte_cases hset first
      · rw [hkept, List.singleton_append] at hencoded
        obtain ⟨rfl, hrest⟩ := List.cons.inj hencoded
        cases bytes with
        | nil => cases hrest
        | cons second bytes =>
            rw [List.flatMap_cons] at hrest
            obtain hkept | ⟨-, -, _, _, hescaped, -⟩ := encodeByte_cases hset second
            · rw [hkept, List.singleton_append] at hrest
              rw [← (List.cons.inj hrest).1]
              exact h _ _ _ rfl
            · rw [hescaped] at hrest
              rw [← (List.cons.inj hrest).1]
              exact hpercent' _
      · rw [hescaped] at hencoded
        rw [← (List.cons.inj hencoded).1]
        exact hpercent _

/-- Escaping bytes that mean nothing in an escape is undone by decoding. -/
theorem percentDecode_flatMap {escaped : UInt8 → Bool} (hset : KeepsEscapes escaped) :
    ∀ bytes : List UInt8,
      percentDecode (bytes.flatMap fun byte => utf8 (encodeByte escaped byte)) =
        percentDecode bytes
  | [] => rfl
  | byte :: rest => by
      have ih := percentDecode_flatMap hset rest
      rw [List.flatMap_cons]
      obtain hkept | ⟨hbyte, -, high, low, hescaped, hvalue⟩ := encodeByte_cases hset byte
      · rw [hkept, List.singleton_append]
        by_cases hbyte : byte = '%'.toUInt8
        · subst hbyte
          by_cases hdigits :
            ∃ high low rest', rest = high :: low :: rest' ∧ hexByte high low ≠ none
          · obtain ⟨high, low, rest', rfl, hvalue⟩ := hdigits
            have ih' := percentDecode_flatMap hset rest'
            obtain ⟨hhigh, hlow⟩ := hexByte_ne_none.mp hvalue
            obtain ⟨decoded, hdecoded⟩ := Option.ne_none_iff_exists'.mp hvalue
            have hkeep : ∀ b, hexValue b ≠ none → utf8 (encodeByte escaped b) = [b] := by
              intro b hb
              exact (encodeByte_cases hset b).resolve_right fun h => hb h.2.1
            rw [List.flatMap_cons, List.flatMap_cons, hkeep high hhigh, hkeep low hlow,
              List.singleton_append, List.singleton_append, percentDecode, percentDecode,
              if_pos rfl, if_pos rfl, hdecoded]
            exact congrArg (decoded :: ·) ih'
          · have hnone : ∀ high low rest', rest = high :: low :: rest' →
                hexByte high low = none := by
              intro high low rest' hrest
              by_contra hne
              exact hdigits ⟨high, low, rest', hrest, hne⟩
            rw [percentDecode_percent hnone, percentDecode_percent fun high low rest' hrest =>
              hexByte_encoded hset hnone hrest, ih]
        · rw [percentDecode_cons hbyte, percentDecode_cons hbyte, ih]
      · rw [hescaped, percentDecode_cons hbyte]
        simp only [List.cons_append, List.nil_append]
        rw [percentDecode, if_pos rfl, hvalue]
        exact congrArg (byte :: ·) ih
termination_by bytes => bytes.length

@[simp] theorem decodeLossy_percentEncode {escaped : UInt8 → Bool} (hset : KeepsEscapes escaped)
    (text : List Char) : decodeLossy (percentEncode escaped text) = decodeLossy text := by
  have hbytes : utf8 (percentEncode escaped text) =
      (utf8 text).flatMap fun byte => utf8 (encodeByte escaped byte) := by
    rw [utf8, percentEncode, List.flatMap_assoc]
    rfl
  rw [decodeLossy, hbytes, percentDecode_flatMap hset, decodeLossy]

/-! ## Texts that lose characters -/

/-- A text is another one, or it has fewer ASCII characters. -/
def Thins (text original : List Char) : Prop :=
  text = original ∨ weight text < weight original

namespace Thins

variable {text text' text'' : List Char}

theorem refl (text : List Char) : Thins text text :=
  .inl rfl

theorem weight_le (h : Thins text text') : weight text ≤ weight text' := by
  obtain rfl | hless := h
  · exact Nat.le_refl _
  · exact hless.le

theorem eq_of_weight_le (h : Thins text text') (hweight : weight text' ≤ weight text) :
    text = text' :=
  h.resolve_right (Nat.not_lt.mpr hweight)

theorem trans (h : Thins text text') (h' : Thins text' text'') : Thins text text'' := by
  obtain rfl | hless := h
  · exact h'
  · exact .inr (hless.trans_le h'.weight_le)

theorem antisymm (h : Thins text text') (h' : Thins text' text) : text = text' :=
  h.eq_of_weight_le h'.weight_le

/-- What is dropped behind a text has ASCII characters only. -/
theorem append {rest : List Char} (hrest : ∀ c ∈ rest, c.toNat < 128) :
    Thins text (text ++ rest) := by
  cases rest with
  | nil => rw [List.append_nil]; exact refl text
  | cons c rest =>
      refine .inr ?_
      rw [weight_append, weight_cons, weight_ascii (hrest c List.mem_cons_self)]
      omega

/-- What is dropped begins with an ASCII character. -/
theorem append_cons {c : Char} (hc : c.toNat < 128) (rest : List Char) :
    Thins text (text ++ c :: rest) := by
  refine .inr ?_
  rw [weight_append, weight_cons, weight_ascii hc]
  omega

theorem decodeLossy (text : List Char) : Thins (decodeLossy text) text := by
  obtain ⟨-, hsame⟩ | ⟨-, hless⟩ := decodeLossy_cases text
  · exact .inl hsame
  · exact .inr hless

/-- A text that is decoded to itself has no escape. -/
theorem hasEscape_eq_false (h : Data.decodeLossy text = text) : hasEscape text = false := by
  obtain ⟨hnone, -⟩ | ⟨-, hless⟩ := decodeLossy_cases text
  · exact hnone
  · rw [h] at hless
    exact absurd hless (Nat.lt_irrefl _)

variable {p : Char → Bool}

theorem filter (hp : ∀ c, p c = false → c.toNat < 128) (text : List Char) :
    Thins (text.filter p) text := by
  induction text with
  | nil => exact refl []
  | cons c text ih =>
      cases hc : p c with
      | true =>
          rw [List.filter_cons_of_pos hc]
          obtain hsame | hless := ih
          · exact .inl (by rw [hsame])
          · refine .inr ?_
            rw [weight_cons, weight_cons c text]
            omega
      | false =>
          rw [List.filter_cons_of_neg (by simp [hc])]
          refine .inr ?_
          have hle := ih.weight_le
          rw [weight_cons, weight_ascii (hp c hc)]
          omega

theorem takeWhile (hp : ∀ c, p c = false → c.toNat < 128) (text : List Char) :
    Thins (text.takeWhile p) text := by
  induction text with
  | nil => exact refl []
  | cons c text ih =>
      cases hc : p c with
      | true =>
          rw [List.takeWhile_cons_of_pos hc]
          obtain hsame | hless := ih
          · exact .inl (by rw [hsame])
          · refine .inr ?_
            rw [weight_cons, weight_cons c text]
            omega
      | false =>
          rw [List.takeWhile_cons_of_neg (by simp [hc])]
          exact @append_cons [] c (hp c hc) text

theorem dropWhile (hp : ∀ c, p c = true → c.toNat < 128) (text : List Char) :
    Thins (text.dropWhile p) text := by
  induction text with
  | nil => exact refl []
  | cons c text ih =>
      cases hc : p c with
      | true =>
          rw [List.dropWhile_cons_of_pos hc]
          refine .inr ?_
          have hle := ih.weight_le
          rw [weight_cons, weight_ascii (hp c hc)]
          omega
      | false => exact .inl (List.dropWhile_cons_of_neg (by simp [hc]))

theorem rdropWhile (hp : ∀ c, p c = true → c.toNat < 128) (text : List Char) :
    Thins (text.rdropWhile p) text := by
  have hsplit := List.rdropWhile_append_rtakeWhile (p := p) (l := text)
  have happend : Thins (text.rdropWhile p) (text.rdropWhile p ++ text.rtakeWhile p) :=
    append fun c hc => hp c (List.mem_rtakeWhile_imp hc)
  rwa [hsplit] at happend

end Thins

end Fraisier.Data
