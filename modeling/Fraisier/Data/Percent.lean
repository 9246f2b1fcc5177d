import Fraisier.Data.Utf8

/-!
# Percent-encoded texts

A text stands for the bytes its `%XX` are replaced by. `fromUtf8Lossy` reads bytes as
characters whatever they are; of bytes that are the ones of characters it loses nothing.
-/

namespace Fraisier.Data

/-- The value of a hexadecimal digit. -/
def hexValue (byte : UInt8) : Option UInt8 :=
  if '0'.toUInt8 ≤ byte ∧ byte ≤ '9'.toUInt8 then some (byte - '0'.toUInt8)
  else if 'A'.toUInt8 ≤ byte ∧ byte ≤ 'F'.toUInt8 then some (byte - 'A'.toUInt8 + 10)
  else if 'a'.toUInt8 ≤ byte ∧ byte ≤ 'f'.toUInt8 then some (byte - 'a'.toUInt8 + 10)
  else none

/-- The byte that two hexadecimal digits stand for. -/
def hexByte (high low : UInt8) : Option UInt8 := do
  let high ← hexValue high
  let low ← hexValue low
  return 16 * high + low

/-- Bytes with a byte for each `%XX`. A `%` that no two digits follow stands for itself. -/
def percentDecode : List UInt8 → List UInt8
  | byte :: high :: low :: rest =>
      if byte = '%'.toUInt8 then
        match hexByte high low with
        | some decoded => decoded :: percentDecode rest
        | none => byte :: percentDecode (high :: low :: rest)
      else byte :: percentDecode (high :: low :: rest)
  | bytes => bytes

theorem percentDecode_ne_nil {bytes : List UInt8} (h : bytes ≠ []) : percentDecode bytes ≠ [] := by
  unfold percentDecode
  split
  · split
    · split
      · exact List.cons_ne_nil _ _
      · exact List.cons_ne_nil _ _
    · exact List.cons_ne_nil _ _
  · exact h

/-! ## Reading bytes as characters -/

/-- The character that bytes begin with. -/
def decodeChar (bytes : List UInt8) : Option Char :=
  bytes.toByteArray.utf8DecodeChar? 0

/-- What a lead byte asks of the byte behind it. -/
def followsLead (lead byte : UInt8) : Bool :=
  if lead = 0xE0 then 0xA0 ≤ byte && byte < 0xC0
  else if lead = 0xED then 0x80 ≤ byte && byte < 0xA0
  else if lead = 0xF0 then 0x90 ≤ byte && byte < 0xC0
  else if lead = 0xF4 then 0x80 ≤ byte && byte < 0x90
  else isContinuation byte

/-- How many of the bytes that no character begins are replaced together: as many as could
have begun one. -/
def malformedLength : List UInt8 → Nat
  | lead :: second :: third :: _ =>
      if 0xE0 ≤ lead ∧ lead < 0xF0 ∧ followsLead lead second then 2
      else if 0xF0 ≤ lead ∧ lead < 0xF5 ∧ followsLead lead second then
        if isContinuation third then 3 else 2
      else 1
  | [lead, second] =>
      if 0xE0 ≤ lead ∧ lead < 0xF5 ∧ followsLead lead second then 2 else 1
  | _ => 1

/-- The characters of bytes, at most as many as the fuel is. -/
def lossyFrom : Nat → List UInt8 → List Char
  | fuel + 1, byte :: rest =>
      match decodeChar (byte :: rest) with
      | some c => c :: lossyFrom fuel ((byte :: rest).drop (String.utf8EncodeChar c).length)
      | none =>
          Char.ofNat 0xFFFD :: lossyFrom fuel ((byte :: rest).drop (malformedLength (byte :: rest)))
  | _, _ => []

/-- The characters of bytes, with a replacement for what is the encoding of none. -/
def fromUtf8Lossy (bytes : List UInt8) : List Char :=
  lossyFrom bytes.length bytes

theorem decodeChar_append (c : Char) (rest : List UInt8) :
    decodeChar (String.utf8EncodeChar c ++ rest) = some c := by
  rw [decodeChar, List.toByteArray_append]
  exact ByteArray.utf8DecodeChar?_utf8EncodeChar_append

theorem lossyFrom_utf8 (chars : List Char) {fuel : Nat} (h : chars.length ≤ fuel) :
    lossyFrom fuel (utf8 chars) = chars := by
  induction chars generalizing fuel with
  | nil => cases fuel <;> rfl
  | cons c chars ih =>
      obtain ⟨fuel, rfl⟩ : ∃ n, fuel = n + 1 := ⟨fuel - 1, by rw [List.length_cons] at h; omega⟩
      obtain ⟨lead, rest, hencoded, -⟩ := exists_encoded c
      have hdecoded := decodeChar_append c (utf8 chars)
      have hdrop : (String.utf8EncodeChar c ++ utf8 chars).drop
          (String.utf8EncodeChar c).length = utf8 chars := List.drop_left
      rw [utf8_cons]
      rw [hencoded] at hdecoded hdrop ⊢
      rw [List.cons_append] at hdecoded hdrop ⊢
      rw [lossyFrom, hdecoded]
      simp only [hencoded, hdrop, ih (Nat.succ_le_succ_iff.mp h)]

/-- The bytes of characters are read as the characters. -/
@[simp] theorem fromUtf8Lossy_utf8 (chars : List Char) : fromUtf8Lossy (utf8 chars) = chars :=
  lossyFrom_utf8 chars (length_le_utf8 chars)

/-! ## Writing bytes as ASCII characters -/

/-- The upper-case digit of a number. -/
def upperDigit (n : Nat) : Char :=
  (Nat.digitChar n).toUpper

/-- A byte as `%XX`. -/
def escapeByte (byte : UInt8) : List Char :=
  ['%', upperDigit (byte.toNat / 16), upperDigit (byte.toNat % 16)]

/-- A byte as itself, or as `%XX` if it is to be escaped or is not ASCII. -/
def encodeByte (escaped : UInt8 → Bool) (byte : UInt8) : List Char :=
  if escaped byte || 0x80 ≤ byte then escapeByte byte else [Char.ofNat byte.toNat]

/-- Characters, with `%XX` for each byte of them that is to be escaped. -/
def percentEncode (escaped : UInt8 → Bool) (chars : List Char) : List Char :=
  (utf8 chars).flatMap (encodeByte escaped)

theorem upperDigit_ascii : ∀ n < 16, (upperDigit n).isAlphanum = true := by
  decide

theorem div_lt_sixteen (byte : UInt8) : byte.toNat / 16 < 16 :=
  Nat.div_lt_of_lt_mul byte.toNat_lt

theorem mod_lt_sixteen (byte : UInt8) : byte.toNat % 16 < 16 :=
  Nat.mod_lt _ (by decide)

theorem toNat_ofNat_ascii : ∀ n < 128, (Char.ofNat n).toNat = n := by
  decide

/-- A character of an encoded byte. -/
theorem mem_encodeByte {escaped : UInt8 → Bool} {byte : UInt8} {c : Char}
    (h : c ∈ encodeByte escaped byte) :
    c = '%' ∨ c.isAlphanum = true ∨
      escaped byte = false ∧ byte < 0x80 ∧ c = Char.ofNat byte.toNat := by
  rw [encodeByte] at h
  split at h
  · rcases List.mem_cons.mp h with rfl | h
    · exact .inl rfl
    · rcases List.mem_cons.mp h with rfl | h
      · exact .inr (.inl (upperDigit_ascii _ (div_lt_sixteen byte)))
      · rw [List.mem_singleton.mp h]
        exact .inr (.inl (upperDigit_ascii _ (mod_lt_sixteen byte)))
  · next hplain =>
      simp only [Bool.or_eq_true, decide_eq_true_eq, not_or] at hplain
      exact .inr (.inr ⟨Bool.eq_false_iff.mpr hplain.1, UInt8.not_le.mp hplain.2,
        List.mem_singleton.mp h⟩)

/-- A character that is always escaped, and not made by escaping, does not occur. -/
theorem not_mem_percentEncode {escaped : UInt8 → Bool} {c : Char} {chars : List Char}
    (hplain : c.isAlphanum = false) (hpercent : c ≠ '%')
    (hescaped : ∀ n < 128, Char.ofNat n = c → escaped (UInt8.ofNat n) = true) :
    c ∉ percentEncode escaped chars := by
  intro h
  obtain ⟨byte, -, hmem⟩ := List.mem_flatMap.mp h
  rcases mem_encodeByte hmem with hmark | hdigit | ⟨hkept, hascii, hchar⟩
  · exact hpercent hmark
  · rw [hplain] at hdigit
    cases hdigit
  · have hescapes := hescaped byte.toNat (UInt8.lt_iff_toNat_lt.mp hascii) hchar.symm
    rw [UInt8.ofNat_toNat, hkept] at hescapes
    cases hescapes

/-- A decoder that reads `%XX` as its byte, and every other ASCII character as itself, reads
back what was encoded. -/
theorem decode_percentEncode {escaped : UInt8 → Bool} {decode : List Char → List UInt8}
    (hpercent : escaped 0x25 = true) (hnil : decode [] = [])
    (hescaped : ∀ byte rest, decode (escapeByte byte ++ rest) = byte :: decode rest)
    (hplain : ∀ c rest, c.toNat < 128 → c ≠ '%' →
      decode (c :: rest) = c.val.toUInt8 :: decode rest) (chars : List Char) :
    decode (percentEncode escaped chars) = utf8 chars := by
  rw [percentEncode]
  induction utf8 chars with
  | nil => exact hnil
  | cons byte bytes ih =>
      rw [List.flatMap_cons, encodeByte]
      split
      · rw [hescaped, ih]
      · next hkept =>
          simp only [Bool.or_eq_true, decide_eq_true_eq, not_or] at hkept
          have hascii : byte.toNat < 128 := UInt8.lt_iff_toNat_lt.mp (UInt8.not_le.mp hkept.2)
          have hnat : (Char.ofNat byte.toNat).toNat = byte.toNat := toNat_ofNat_ascii _ hascii
          have hne : Char.ofNat byte.toNat ≠ '%' := by
            intro hmark
            rw [hmark] at hnat
            have hbyte : byte = 0x25 := UInt8.toNat_inj.mp hnat.symm
            exact hkept.1 (hbyte ▸ hpercent)
          rw [List.singleton_append, hplain _ _ (by rw [hnat]; exact hascii) hne, ih]
          congr 1
          exact UInt8.toNat_inj.mp (by rw [toNat_ascii (by rw [hnat]; exact hascii), hnat])

end Fraisier.Data
