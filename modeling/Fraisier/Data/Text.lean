import Mathlib.Data.List.Basic
import Mathlib.Data.List.Infix
import Mathlib.Data.List.TakeWhile

/-!
# Text and finite maps

The string operations of the standard library that Lean's own do not match, and maps
as lists of entries with distinct keys.
-/

namespace Fraisier.Data

/-- The characters with the Unicode property `White_Space`. -/
def isWhitespace (c : Char) : Bool :=
  let n := c.toNat
  (9 ≤ n && n ≤ 13) || n == 0x20 || n == 0x85 || n == 0xA0 || n == 0x1680 ||
    (0x2000 ≤ n && n ≤ 0x200A) || n == 0x2028 || n == 0x2029 || n == 0x202F ||
    n == 0x205F || n == 0x3000

/-- A text without the whitespace at its ends. -/
def trim (text : String) : String :=
  String.ofList ((text.toList.dropWhile isWhitespace).reverse.dropWhile isWhitespace).reverse

/-- A text without the whitespace at its end. -/
def trimEnd (text : String) : String :=
  String.ofList (text.toList.reverse.dropWhile isWhitespace).reverse

/-- The lines of a text whose last line so far is `line`, latest character first. A line
ends in a newline, which a carriage return may precede. -/
def linesFrom (line : List Char) : List Char → List String
  | [] => if line.isEmpty then [] else [String.ofList line.reverse]
  | '\n' :: rest =>
      let ended := if line.head? = some '\r' then line.tail else line
      String.ofList ended.reverse :: linesFrom [] rest
  | c :: rest => linesFrom (c :: line) rest

/-- The lines of a text, without their ends. -/
def lines (text : String) : List String :=
  linesFrom [] text.toList

/-- The words of a text whose last word so far is `word`, latest character first. -/
def wordsFrom (word : List Char) : List Char → List String
  | [] => if word.isEmpty then [] else [String.ofList word.reverse]
  | c :: rest =>
      if isWhitespace c then
        (if word.isEmpty then [] else [String.ofList word.reverse]) ++ wordsFrom [] rest
      else wordsFrom (c :: word) rest

/-- The words of a text, which whitespace separates. -/
def splitWhitespace (text : String) : List String :=
  wordsFrom [] text.toList

/-- Whether a text has another in it. -/
def containsText (text part : String) : Bool :=
  text.toList.tails.any fun suffix => part.toList.isPrefixOf suffix

/-- The character that ends a string of C. -/
def nul : Char := Char.ofNat 0

/-- The characters of a text that is given to a program in C: those before the first `nul`. -/
def cString (text : String) : List Char :=
  text.toList.takeWhile (· != nul)

/-- What follows a text at the start of another. -/
def stripPrefix (text part : String) : Option String :=
  if part.toList.isPrefixOf text.toList then
    some (String.ofList (text.toList.drop part.toList.length))
  else none

/-- What comes before a text at the end of another. -/
def stripSuffix (text part : String) : Option String :=
  if part.toList.isSuffixOf text.toList then
    some (String.ofList (text.toList.take (text.toList.length - part.toList.length)))
  else none

theorem cString_of_not_mem {text : String} (h : nul ∉ text.toList) :
    cString text = text.toList := by
  refine List.takeWhile_eq_self_iff.mpr fun c hc => ?_
  exact bne_iff_ne.mpr fun heq => h (heq ▸ hc)

/-- Letters and digits are three ranges of ASCII. -/
theorem alphanum_ranges {c : Char} (h : c.isAlphanum = true) :
    (65 ≤ c.toNat ∧ c.toNat ≤ 90 ∨ 97 ≤ c.toNat ∧ c.toNat ≤ 122) ∨
      48 ≤ c.toNat ∧ c.toNat ≤ 57 := by
  have hranges : (decide (65 ≤ c.val ∧ c.val ≤ 90) ||
      decide (97 ≤ c.val) && decide (c.val ≤ 122) ||
        decide (48 ≤ c.val) && decide (c.val ≤ 57)) = true := h
  simp only [Bool.or_eq_true, Bool.and_eq_true, decide_eq_true_eq,
    UInt32.le_iff_toNat_le] at hranges
  exact hranges

theorem eq_append_of_stripPrefix {text part rest : String}
    (h : stripPrefix text part = some rest) : text = part ++ rest := by
  unfold stripPrefix at h
  split at h
  next hprefix =>
    obtain ⟨tail, htail⟩ := List.isPrefixOf_iff_prefix.mp hprefix
    obtain rfl := Option.some.inj h
    refine String.toList_inj.mp ?_
    rw [← htail]
    simp
  next => cases h

theorem eq_append_of_stripSuffix {text part rest : String}
    (h : stripSuffix text part = some rest) : text = rest ++ part := by
  unfold stripSuffix at h
  split at h
  next hsuffix =>
    obtain ⟨head, hhead⟩ := List.isSuffixOf_iff_suffix.mp hsuffix
    obtain rfl := Option.some.inj h
    refine String.toList_inj.mp ?_
    simp [← hhead]
  next => cases h

theorem stripPrefix_append (part rest : String) : stripPrefix (part ++ rest) part = some rest := by
  simp [stripPrefix]

theorem stripSuffix_append (rest part : String) : stripSuffix (rest ++ part) part = some rest := by
  simp [stripSuffix]

section Entries

variable {κ ν : Type} [DecidableEq κ]

/-- Insert an entry into a map, replacing the one with the same key. -/
def insertEntry (m : List (κ × ν)) (k : κ) (v : ν) : List (κ × ν) :=
  (k, v) :: m.filter fun e => e.1 != k

theorem mem_insertEntry {m : List (κ × ν)} {k : κ} {v : ν} {e : κ × ν} :
    e ∈ insertEntry m k v ↔ e = (k, v) ∨ e ∈ m ∧ e.1 ≠ k := by
  simp [insertEntry]

@[simp] theorem lookup_insertEntry_self (m : List (κ × ν)) (k : κ) (v : ν) :
    (insertEntry m k v).lookup k = some v := by
  simp [insertEntry]

/-- Entries under other keys are found as before when those under one key are dropped. -/
theorem lookup_filter_ne (m : List (κ × ν)) {j k : κ} (h : j ≠ k) :
    (m.filter fun e => e.1 != k).lookup j = m.lookup j := by
  have hne : (j == k) = false := by simpa using h
  induction m with
  | nil => rfl
  | cons e m ih =>
      obtain ⟨i, w⟩ := e
      by_cases hik : i = k
      · subst hik
        simp [List.lookup_cons, hne, ih]
      · simp [hik, List.lookup_cons, ih]

@[simp] theorem lookup_insertEntry_ne (m : List (κ × ν)) {j k : κ} (v : ν) (h : j ≠ k) :
    (insertEntry m k v).lookup j = m.lookup j := by
  have hne : (j == k) = false := by simpa using h
  simp only [insertEntry, List.lookup_cons, hne]
  exact lookup_filter_ne m h

/-- What is found is an entry. -/
theorem mem_of_lookup_eq_some {m : List (κ × ν)} {k : κ} {v : ν} (h : m.lookup k = some v) :
    (k, v) ∈ m := by
  induction m with
  | nil => cases h
  | cons e m ih =>
      obtain ⟨i, w⟩ := e
      by_cases hki : k = i
      · subst hki
        simp only [List.lookup_cons, beq_self_eq_true, Option.some.injEq] at h
        simp [h]
      · have hne : (k == i) = false := by simpa using hki
        simp only [List.lookup_cons, hne] at h
        exact List.mem_cons_of_mem _ (ih h)

theorem lookup_eq_none_of_not_mem {m : List (κ × ν)} {k : κ} (h : k ∉ m.map Prod.fst) :
    m.lookup k = none := by
  rw [List.lookup_eq_none_iff]
  intro e he
  have hne : k ≠ e.1 := fun heq => h (heq ▸ List.mem_map_of_mem he)
  simpa using hne

/-- Inserting entries with distinct keys puts them before what was there. -/
theorem lookup_foldl_insertEntry {entries : List (κ × ν)}
    (hdistinct : (entries.map Prod.fst).Nodup) (m : List (κ × ν)) (k : κ) :
    (entries.foldl (fun m e => insertEntry m e.1 e.2) m).lookup k =
      (entries.lookup k).or (m.lookup k) := by
  induction entries generalizing m with
  | nil => simp
  | cons e entries ih =>
      obtain ⟨j, v⟩ := e
      obtain ⟨hfresh, hrest⟩ := List.nodup_cons.mp hdistinct
      rw [List.foldl_cons, ih hrest]
      by_cases hk : k = j
      · subst hk
        simp [lookup_eq_none_of_not_mem hfresh]
      · have hne : (k == j) = false := by simpa using hk
        simp [hk, hne, List.lookup_cons]

/-- Entries with distinct keys are found under their keys. -/
theorem lookup_map_entry {ι : Type} {key : ι → κ} {value : ι → ν} {items : List ι}
    (hdistinct : (items.map key).Nodup) {i : ι} (hi : i ∈ items) :
    (items.map fun i => (key i, value i)).lookup (key i) = some (value i) := by
  induction items with
  | nil => cases hi
  | cons j items ih =>
      obtain ⟨hfresh, hrest⟩ := List.nodup_cons.mp hdistinct
      rcases List.mem_cons.mp hi with rfl | hi
      · simp
      · have hne : key i ≠ key j := fun heq => hfresh (heq ▸ List.mem_map_of_mem hi)
        have hbeq : (key i == key j) = false := by simpa using hne
        simp [List.lookup_cons, hbeq, ih hrest hi]

/-- Items with distinct keys have their values found under the keys, if they have one. -/
theorem lookup_filterMap_entry {ι : Type} {key : ι → κ} {value : ι → Option ν} {items : List ι}
    (hdistinct : (items.map key).Nodup) {i : ι} (hi : i ∈ items) :
    (items.filterMap fun i => (value i).map fun v => (key i, v)).lookup (key i) = value i := by
  induction items with
  | nil => cases hi
  | cons j items ih =>
      obtain ⟨hfresh, hrest⟩ := List.nodup_cons.mp hdistinct
      rcases List.mem_cons.mp hi with rfl | hi
      · cases hv : value i with
        | some v => simp [hv]
        | none =>
            rw [List.filterMap_cons, hv]
            refine lookup_eq_none_of_not_mem fun h => hfresh ?_
            obtain ⟨e, he, hkey⟩ := List.mem_map.mp h
            obtain ⟨k, hk, hentry⟩ := List.mem_filterMap.mp he
            obtain ⟨v, -, rfl⟩ := Option.map_eq_some_iff.mp hentry
            exact hkey ▸ List.mem_map_of_mem hk
      · have hne : (key i == key j) = false := by
          simpa using fun heq : key i = key j => hfresh (heq ▸ List.mem_map_of_mem hi)
        cases hv : value j with
        | some v => simp [hv, List.lookup_cons, hne, ih hrest hi]
        | none => simpa [List.filterMap_cons, hv] using ih hrest hi

/-- An entry with a key of its own is what is found under it. -/
theorem lookup_of_mem {m : List (κ × ν)} (hdistinct : (m.map Prod.fst).Nodup) {e : κ × ν}
    (he : e ∈ m) : m.lookup e.1 = some e.2 := by
  have hfound : (m.map fun e => (e.1, e.2)).lookup e.1 = some e.2 :=
    lookup_map_entry hdistinct he
  simpa using hfound

/-- What is found when only some keys are kept. -/
theorem lookup_filter_key (m : List (κ × ν)) (p : κ → Bool) (k : κ) :
    (m.filter fun e => p e.1).lookup k = if p k then m.lookup k else none := by
  induction m with
  | nil => simp
  | cons e m ih =>
      obtain ⟨j, v⟩ := e
      by_cases hk : k = j
      · subst hk
        by_cases hp : p k = true
        · simp [hp]
        · rw [List.filter_cons_of_neg (by simpa using hp), ih]
          simp [hp]
      · have hne : (k == j) = false := by simpa using hk
        by_cases hp : p j = true
        · rw [List.filter_cons_of_pos (by simpa using hp)]
          simp only [List.lookup_cons, hne, ih]
        · rw [List.filter_cons_of_neg (by simpa using hp), ih]
          simp only [List.lookup_cons, hne]

end Entries

end Fraisier.Data
