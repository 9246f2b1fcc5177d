import Fraisier.Data.HeaderLines
import Mathlib.Algebra.Group.Int.Defs
import Mathlib.Algebra.Group.Nat.Defs

/-!
# Signed requests

A request carries a timestamp and a MAC of the timestamp and its body. `verify_eq_ok_iff` says
what is verified, `macInput_inj` that no two pairs of a timestamp and a body have one input, and
`verify_sign` that what was signed is verified. The keyed MAC is a parameter.
-/

namespace Fraisier.Webhook

open Fraisier.Data

/-- The header with the timestamp in Unix seconds. -/
def timestampHeader : String := "x-fraisier-timestamp"

/-- The header with the signature. -/
def signatureHeader : String := "x-fraisier-signature"

/-- Why a request is rejected. The skew is the clock less the timestamp. -/
inductive Rejection where
  | missingTimestamp
  | badTimestamp
  | stale (skew : Int)
  | missingSignature
  | badSignatureFormat
  | mismatch
deriving DecidableEq

def Rejection.message : Rejection → String
  | .missingTimestamp => "missing " ++ timestampHeader ++ " header"
  | .badTimestamp => "malformed " ++ timestampHeader ++ " header"
  | .stale skew => "timestamp outside the replay window (skew " ++ toString skew ++ "s)"
  | .missingSignature => "missing " ++ signatureHeader ++ " header"
  | .badSignatureFormat => "malformed " ++ signatureHeader ++ " (want sha256=<hex>)"
  | .mismatch => "signature mismatch"

/-! ## Hexadecimal -/

/-- A byte as two digits. -/
def hexPair (byte : UInt8) : List Char :=
  [Nat.digitChar (byte.toNat / 16), Nat.digitChar (byte.toNat % 16)]

/-- Bytes as digits. -/
def hexEncode (bytes : List UInt8) : String :=
  String.ofList (bytes.flatMap hexPair)

/-- The bytes that digits of either case stand for. -/
def hexDecode : List UInt8 → Option (List UInt8)
  | [] => some []
  | [_] => none
  | high :: low :: rest => do
      let byte ← hexByte high low
      let bytes ← hexDecode rest
      return byte :: bytes

/-! ## Signing and verifying -/

/-- What the MAC is of: the timestamp as it is written, a dot and the body. -/
def macInput (timestamp : String) (body : List UInt8) : List UInt8 :=
  utf8 timestamp.toList ++ utf8 ".".toList ++ body

/-- A number of 64 bits, or the largest signed one. -/
def saturating (n : Nat) : Int :=
  if n < 2 ^ 63 then n else 2 ^ 63 - 1

/-- A timestamp as it is read. -/
def parseTimestamp (text : String) : Option Nat :=
  parseUnsigned (2 ^ 64) text

variable (mac : List UInt8 → List UInt8 → List UInt8)

/-- The MAC of a timestamp and a body. -/
def tag (secret : List UInt8) (timestamp : String) (body : List UInt8) : List UInt8 :=
  mac secret (macInput timestamp body)

/-- The value of the signature header. -/
def sign (secret : List UInt8) (timestamp : Nat) (body : List UInt8) : String :=
  "sha256=" ++ hexEncode (tag mac secret (toString timestamp) body)

/-- The timestamp of a request as it is written, if it is fresh. -/
def verifyTimestamp (header : Option String) (now toleranceSecs : Nat) :
    Except Rejection String :=
  match header with
  | none => .error .missingTimestamp
  | some text =>
      match parseTimestamp (trim text) with
      | none => .error .badTimestamp
      | some parsed =>
          let skew := saturating now - saturating parsed
          if toleranceSecs < skew.natAbs then .error (.stale skew) else .ok (trim text)

/-- The MAC that a signature header carries. -/
def providedTag (header : Option String) : Except Rejection (List UInt8) :=
  match header with
  | none => .error .missingSignature
  | some text =>
      match stripPrefix (trim text) "sha256=" with
      | none => .error .badSignatureFormat
      | some providedHex =>
          match hexDecode (utf8 providedHex.toList) with
          | none => .error .badSignatureFormat
          | some provided => .ok provided

/-- Verify a request: its timestamp first, then its signature. -/
def verify (secret body : List UInt8) (timestampHeader signatureHeader : Option String)
    (now toleranceSecs : Nat) : Except Rejection Unit := do
  let timestamp ← verifyTimestamp timestampHeader now toleranceSecs
  let provided ← providedTag signatureHeader
  if provided = tag mac secret timestamp body then .ok () else .error .mismatch

/-- A signature header carries a MAC. -/
def Carries (text : String) (tag : List UInt8) : Prop :=
  ∃ hex, stripPrefix (trim text) "sha256=" = some hex ∧ hexDecode (utf8 hex.toList) = some tag

/-- What a verified request carries. -/
structure Verified (secret body : List UInt8) (timestampHeader signatureHeader : Option String)
    (now toleranceSecs : Nat) (timestampText signatureText : String) (timestamp : Nat) :
    Prop where
  timestamped : timestampHeader = some timestampText
  parsed : parseTimestamp (trim timestampText) = some timestamp
  fresh : (saturating now - saturating timestamp).natAbs ≤ toleranceSecs
  signed : signatureHeader = some signatureText
  carries : Carries signatureText (tag mac secret (trim timestampText) body)

variable {mac} {secret body : List UInt8} {timestamp? signature? : Option String}
  {now toleranceSecs : Nat}

theorem verifyTimestamp_eq_ok_iff {text : String} :
    verifyTimestamp timestamp? now toleranceSecs = .ok text ↔
      ∃ timestampText timestamp, timestamp? = some timestampText ∧ text = trim timestampText ∧
        parseTimestamp text = some timestamp ∧
          (saturating now - saturating timestamp).natAbs ≤ toleranceSecs := by
  constructor
  · intro h
    cases timestamp? with
    | none => cases h
    | some timestampText =>
        rw [verifyTimestamp] at h
        split at h
        next => cases h
        next timestamp hparsed =>
          dsimp only at h
          split at h
          next => cases h
          next hfresh =>
            cases h
            exact ⟨timestampText, timestamp, rfl, rfl, hparsed, Nat.le_of_not_lt hfresh⟩
  · rintro ⟨timestampText, timestamp, rfl, rfl, hparsed, hfresh⟩
    simp only [verifyTimestamp, hparsed, if_neg (Nat.not_lt.mpr hfresh)]

theorem providedTag_eq_ok_iff {provided : List UInt8} : providedTag signature? = .ok provided ↔
    ∃ signatureText, signature? = some signatureText ∧ Carries signatureText provided := by
  constructor
  · intro h
    cases signature? with
    | none => cases h
    | some signatureText =>
        rw [providedTag] at h
        split at h
        next => cases h
        next hex hhex =>
          split at h
          next => cases h
          next bytes hbytes =>
            cases h
            exact ⟨signatureText, rfl, hex, hhex, hbytes⟩
  · rintro ⟨signatureText, rfl, hex, hhex, hbytes⟩
    simp only [providedTag, hhex, hbytes]

/-- A request is verified if it carries a fresh timestamp and the MAC of it and the body. -/
theorem verify_eq_ok_iff :
    verify mac secret body timestamp? signature? now toleranceSecs = .ok () ↔
      ∃ timestampText signatureText timestamp, Verified mac secret body timestamp? signature? now
        toleranceSecs timestampText signatureText timestamp := by
  constructor
  · intro h
    rw [verify] at h
    cases htimestamp : verifyTimestamp timestamp? now toleranceSecs with
    | error rejection =>
        rw [htimestamp] at h
        cases h
    | ok text =>
        rw [htimestamp] at h
        cases hprovided : providedTag signature? with
        | error rejection =>
            rw [hprovided] at h
            cases h
        | ok provided =>
            rw [hprovided] at h
            obtain ⟨timestampText, timestamp, hheader, rfl, hparsed, hfresh⟩ :=
              verifyTimestamp_eq_ok_iff.mp htimestamp
            obtain ⟨signatureText, hsignature, hcarries⟩ := providedTag_eq_ok_iff.mp hprovided
            change (if provided = tag mac secret (trim timestampText) body then
              Except.ok () else .error Rejection.mismatch) = .ok () at h
            split at h
            next heq =>
              exact ⟨timestampText, signatureText, timestamp, hheader, hparsed, hfresh, hsignature,
                heq ▸ hcarries⟩
            next => cases h
  · rintro ⟨timestampText, signatureText, timestamp, hheader, hparsed, hfresh, hsignature, hcarries⟩
    rw [verify, verifyTimestamp_eq_ok_iff.mpr ⟨timestampText, timestamp, hheader, rfl, hparsed,
      hfresh⟩, providedTag_eq_ok_iff.mpr ⟨signatureText, hsignature, hcarries⟩]
    exact if_pos rfl

/-! ## The clock -/

/-- Where the clock and the tolerance stay below the largest signed number, a timestamp that is
fresh is within the tolerance of the clock. -/
theorem within_of_fresh {timestamp : Nat} (hsum : now + toleranceSecs < 2 ^ 63 - 1)
    (hfresh : (saturating now - saturating timestamp).natAbs ≤ toleranceSecs) :
    now ≤ timestamp + toleranceSecs ∧ timestamp ≤ now + toleranceSecs := by
  have hnow : saturating now = now := if_pos (by omega)
  rw [hnow] at hfresh
  by_cases hlt : timestamp < 2 ^ 63
  · have htimestamp : saturating timestamp = timestamp := if_pos hlt
    rw [htimestamp] at hfresh
    omega
  · have htimestamp : saturating timestamp = 2 ^ 63 - 1 := if_neg hlt
    rw [htimestamp] at hfresh
    omega

/-! ## The input of the MAC -/

/-- A text that a number is read from has no dot. -/
theorem dot_not_mem_of_parsed {text : String} {timestamp : Nat}
    (h : parseTimestamp text = some timestamp) : '.' ∉ text.toList := by
  intro hdot
  rw [parseTimestamp, parseUnsigned] at h
  by_cases hplus : text.toList.head? = some '+'
  · obtain ⟨digits, hdigits⟩ := List.head?_eq_some_iff.mp hplus
    have hall : digits.all Char.isDigit = false := by
      rw [hdigits, List.mem_cons] at hdot
      exact List.all_eq_false.mpr ⟨'.', hdot.resolve_left (by decide), by decide⟩
    simp [hdigits, hall] at h
  · have hall : text.toList.all Char.isDigit = false :=
      List.all_eq_false.mpr ⟨'.', hdot, by decide⟩
    simp [hplus, hall] at h

/-- No two pairs of a timestamp that is read and a body have one input. -/
theorem macInput_inj {text text' : String} {body body' : List UInt8} {timestamp timestamp' : Nat}
    (htext : parseTimestamp text = some timestamp)
    (htext' : parseTimestamp text' = some timestamp')
    (h : macInput text body = macInput text' body') : text = text' ∧ body = body' := by
  have hdot : ∀ {text : String}, '.' ∉ text.toList → '.'.toUInt8 ∉ utf8 text.toList :=
    fun htext hmem => htext ((ascii_mem_utf8 (by decide)).mp hmem)
  have hbyte : utf8 ".".toList = ['.'.toUInt8] := by decide
  rw [macInput, macInput, hbyte, List.append_assoc, List.append_assoc, List.singleton_append,
    List.singleton_append] at h
  obtain ⟨htexts, hbodies⟩ := append_separator_inj (hdot (dot_not_mem_of_parsed htext))
    (hdot (dot_not_mem_of_parsed htext')) h
  exact ⟨String.toList_inj.mp (utf8_injective htexts), hbodies⟩

/-! ## What is signed is verified -/

theorem hexDigit_spec : ∀ n : Fin 16, (Nat.digitChar n).isAlphanum = true ∧
    (Nat.digitChar n).toNat < 128 ∧
      hexValue (Nat.digitChar n).toUInt8 = some (UInt8.ofNat n) := by
  decide +kernel

theorem div_mod_sixteen (byte : UInt8) :
    16 * UInt8.ofNat (byte.toNat / 16) + UInt8.ofNat (byte.toNat % 16) = byte := by
  have hlt := byte.toNat_lt
  rw [← UInt8.toNat_inj, UInt8.toNat_add, UInt8.toNat_mul, UInt8.toNat_ofNat', UInt8.toNat_ofNat']
  have hsixteen : (16 : UInt8).toNat = 16 := rfl
  rw [hsixteen]
  omega

theorem hexPair_alphanum (byte : UInt8) : ∀ c ∈ hexPair byte, c.isAlphanum = true := by
  have hhigh := hexDigit_spec ⟨byte.toNat / 16, div_lt_sixteen byte⟩
  have hlow := hexDigit_spec ⟨byte.toNat % 16, mod_lt_sixteen byte⟩
  simpa [hexPair] using ⟨hhigh.1, hlow.1⟩

theorem hexByte_hexPair (byte : UInt8) : ∃ high low, utf8 (hexPair byte) = [high, low] ∧
    hexByte high low = some byte := by
  obtain ⟨-, hhigh, hhighValue⟩ := hexDigit_spec ⟨byte.toNat / 16, div_lt_sixteen byte⟩
  obtain ⟨-, hlow, hlowValue⟩ := hexDigit_spec ⟨byte.toNat % 16, mod_lt_sixteen byte⟩
  refine ⟨_, _, utf8_ascii ?_, ?_⟩
  · simpa [hexPair] using ⟨hhigh, hlow⟩
  · change hexByte (Nat.digitChar (byte.toNat / 16)).toUInt8
      (Nat.digitChar (byte.toNat % 16)).toUInt8 = some byte
    rw [hexByte, hhighValue, hlowValue]
    exact congrArg some (div_mod_sixteen byte)

/-- Bytes are read from the digits they are written as. -/
theorem hexDecode_hexEncode (bytes : List UInt8) :
    hexDecode (utf8 (hexEncode bytes).toList) = some bytes := by
  rw [hexEncode, String.toList_ofList]
  induction bytes with
  | nil => rfl
  | cons byte bytes ih =>
      obtain ⟨high, low, hpair, hbyte⟩ := hexByte_hexPair byte
      rw [List.flatMap_cons, utf8_append, hpair, List.cons_append, List.singleton_append,
        hexDecode, hbyte, ih]
      rfl

theorem hexEncode_visible (bytes : List UInt8) : ∀ c ∈ (hexEncode bytes).toList,
    c.isAlphanum = true := by
  intro c hc
  rw [hexEncode, String.toList_ofList] at hc
  obtain ⟨byte, -, hbyte⟩ := List.mem_flatMap.mp hc
  exact hexPair_alphanum byte c hbyte

theorem not_isWhitespace_of_isAlphanum {c : Char} (h : c.isAlphanum = true) :
    isWhitespace c = false := by
  have hranges := alphanum_ranges h
  simp only [isWhitespace, Bool.or_eq_false_iff, Bool.and_eq_false_iff, decide_eq_false_iff_not,
    beq_eq_false_iff_ne]
  omega

theorem trim_self {text : String} (h : ∀ c ∈ text.toList, isWhitespace c = false) :
    trim text = text := by
  have htrim := @trim_of_visible [] text.toList (by simp) h
  rwa [List.nil_append, String.ofList_toList] at htrim

theorem sign_visible (secret : List UInt8) (timestamp : Nat) (body : List UInt8) :
    ∀ c ∈ (sign mac secret timestamp body).toList,
      c ≠ '\r' ∧ c ≠ '\n' ∧ isWhitespace c = false := by
  intro c hc
  rw [sign, String.toList_append, List.mem_append] at hc
  obtain hc | hc := hc
  · have hall : ("sha256=".toList.all fun c => c != '\r' && c != '\n' && !isWhitespace c) =
        true := by
      decide
    simpa [and_assoc] using List.all_eq_true.mp hall c hc
  · have halphanum := hexEncode_visible _ c hc
    refine ⟨?_, ?_, not_isWhitespace_of_isAlphanum halphanum⟩ <;> rintro rfl <;> cases halphanum

/-- A signature header carries the MAC it was made with. -/
theorem carries_sign (secret : List UInt8) (timestamp : Nat) (body : List UInt8) :
    Carries (sign mac secret timestamp body) (tag mac secret (toString timestamp) body) := by
  refine ⟨hexEncode (tag mac secret (toString timestamp) body), ?_, hexDecode_hexEncode _⟩
  rw [trim_self fun c hc => (sign_visible secret timestamp body c hc).2.2, sign,
    stripPrefix_append]

/-- What was signed at a time that is fresh is verified. -/
theorem verified_sign {timestamp : Nat} (hfits : timestamp < 2 ^ 64)
    (hfresh : (saturating now - saturating timestamp).natAbs ≤ toleranceSecs) :
    Verified mac secret body (some (toString timestamp)) (some (sign mac secret timestamp body))
      now toleranceSecs (toString timestamp) (sign mac secret timestamp body) timestamp := by
  have htrim : trim (toString timestamp) = toString timestamp :=
    trim_self fun c hc => (digits_visible timestamp c hc).2.2
  refine ⟨rfl, ?_, hfresh, rfl, ?_⟩
  · rw [htrim]
    exact parseUnsigned_toString hfits
  · rw [htrim]
    exact carries_sign secret timestamp body

end Fraisier.Webhook
