import Fraisier.Data.Text

/-!
# Stripping credentials out of operator-visible text

`credentials` hides the user information of every URL and the value of every
`password=` keyword. It works on characters; the source works on the bytes of the
same text, and every position it cuts at is a character boundary.
-/

namespace Fraisier.Saga

/-- The one Unicode table the redaction reads: which characters are alphanumeric.
It is fixed on ASCII. -/
class CharTables where
  isAlphanumeric : Char → Bool
  ascii : ∀ c : Char, c.toNat < 128 → isAlphanumeric c = c.isAlphanum

/-- The table that knows ASCII only. -/
instance asciiTables : CharTables where
  isAlphanumeric := Char.isAlphanum
  ascii _ _ := rfl

namespace Redact

/-- What ends a URL's authority section. -/
def authorityEnd : List Char := "/?# \t\"',".toList

/-- What ends the whole URL in running text. -/
def urlEnd : List Char := " \t\"',".toList

/-- What replaces a credential. -/
def mask : List Char := "***".toList

/-- Split a text behind its first `://`. -/
def splitMark : List Char → Option (List Char × List Char)
  | [] => none
  | c :: rest =>
      if "://".toList.isPrefixOf (c :: rest) then
        some ("://".toList, (c :: rest).drop 3)
      else (splitMark rest).map fun r => (c :: r.1, r.2)

theorem splitMark_length {text head authority : List Char}
    (h : splitMark text = some (head, authority)) : authority.length < text.length := by
  induction text generalizing head with
  | nil => simp [splitMark] at h
  | cons c rest ih =>
      simp only [splitMark] at h
      split at h
      · cases h
        simp only [List.length_drop, List.length_cons]
        omega
      · simp only [Option.map_eq_some_iff] at h
        obtain ⟨r, hr, heq⟩ := h
        cases heq
        have := ih hr
        simp only [List.length_cons]
        omega

/-- The position of the last `@`. -/
def lastAt (text : List Char) : Option Nat :=
  (text.reverse.findIdx? (· == '@')).map fun i => text.length - 1 - i

/-- Where the user information of an authority ends: at the last `@` of the
authority, or, when an unencoded delimiter may have cut a password short, at the
last `@` of the URL. -/
def userinfoEnd (authority : List Char) : Option Nat :=
  let section_ := authority.takeWhile fun c => !authorityEnd.contains c
  (lastAt section_).or
    (if section_.contains ':' then
      lastAt (authority.takeWhile fun c => !urlEnd.contains c)
    else none)

/-- Replace `user:password@` with a mask in every URL authority. -/
def urls (text : List Char) : List Char :=
  match _h : splitMark text with
  | none => text
  | some (head, authority) =>
      match userinfoEnd authority with
      | some at_ => head ++ mask ++ urls (authority.drop at_)
      | none =>
          head ++ authority.takeWhile (fun c => !authorityEnd.contains c) ++
            urls (authority.dropWhile fun c => !authorityEnd.contains c)
termination_by text.length
decreasing_by
  · have := splitMark_length _h
    simp only [List.length_drop]
    omega
  · have := splitMark_length _h
    have := (List.dropWhile_sublist (fun c => !authorityEnd.contains c)
      (l := authority)).length_le
    omega

/-- The keyword whose value is a secret. -/
def key : List Char := "password=".toList

/-- Split a text at its first `password=`, in any case: what stands before it, the
keyword as written and what follows. -/
def splitKey : List Char → Option (List Char × List Char × List Char)
  | [] => none
  | c :: rest =>
      if key.isPrefixOf ((c :: rest).map Char.toLower) then
        some ([], (c :: rest).take 9, (c :: rest).drop 9)
      else (splitKey rest).map fun r => (c :: r.1, r.2.1, r.2.2)

theorem splitKey_length {text head word value : List Char}
    (h : splitKey text = some (head, word, value)) : value.length < text.length := by
  induction text generalizing head with
  | nil => simp [splitKey] at h
  | cons c rest ih =>
      simp only [splitKey] at h
      split at h
      · cases h
        simp only [List.length_drop, List.length_cons]
        omega
      · simp only [Option.map_eq_some_iff] at h
        obtain ⟨r, hr, heq⟩ := h
        cases heq
        have := ih hr
        simp only [List.length_cons]
        omega

/-- How many characters of `value` belong to a keyword's value: up to and with the
closing quote of a quoted one, up to the next whitespace of a plain one. -/
def valueEnd (value : List Char) : Nat :=
  match value with
  | [] => 0
  | c :: quoted =>
      if c.toNat == 39 then
        match quoted.findIdx? (fun d => d.toNat == 39) with
        | some close => close + 2
        | none => value.length
      else (value.findIdx? Data.isWhitespace).getD value.length

/-- Only a pair starts a keyword: the character before it must not continue a word. -/
def boundary [CharTables] (head : List Char) : Bool :=
  match head.getLast? with
  | none => true
  | some c => !CharTables.isAlphanumeric c && c != '_'

/-- Replace the value of every `password=` keyword with a mask. -/
def keywords [CharTables] (text : List Char) : List Char :=
  match _h : splitKey text with
  | none => text
  | some (head, word, value) =>
      if !boundary head || valueEnd value == 0 then head ++ word ++ keywords value
      else head ++ word ++ mask ++ keywords (value.drop (valueEnd value))
termination_by text.length
decreasing_by
  · exact splitKey_length _h
  · have := splitKey_length _h
    simp only [List.length_drop]
    omega

/-- Strip credentials out of every URL and every keyword/value pair in a text. -/
def credentials [CharTables] (text : String) : String :=
  String.ofList (keywords (urls text.toList))

end Redact

end Fraisier.Saga
